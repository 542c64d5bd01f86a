import MyLifeHome.Core.Sound

/-!
# The registries agree

Plugins and hardware have a registry each, links have one, and all of them rely on the one
repository of published objects. Any sequence of operations keeps the four in agreement as long
as no id is given to a plugin and to a hardware at once.
-/
namespace MyLifeHome.Manager

variable {δ : Type} {m m' : Manager δ} {k : Kind} {id : String} {x : Item δ} {op : Request δ}
  {ops : List (Request δ)}

/-- An operation that throws changes nothing. -/
def perform (m : Manager δ) (op : Request δ) : Manager δ :=
  match m.handle op with
  | .ok m' => m'
  | .error _ => m

/-- One operation after the other, failing ones included. -/
def performAll (m : Manager δ) (ops : List (Request δ)) : Manager δ := ops.foldl perform m

/-- The ends of a link are the objects that are registered under their ids. -/
def Joined (m : Manager δ) : Prop :=
  ∀ key link, m.process.links.get key = some link →
    (m.process.netRepository.get link.config.sourceComponent).map NetContainer.object =
        some link.source ∧
      (m.process.netRepository.get link.config.destinationComponent).map NetContainer.object =
        some link.destination

structure Coherent (m : Manager δ) : Prop where
  /-- The repository holds the containers of the plugins and of the hardware, and no others. -/
  published : ∀ id c, m.process.netRepository.get id = some c ↔
    m.container .plugins id = some c ∨ m.container .hardware id = some c
  /-- The object of a component bears its id. -/
  own : ∀ k id c, m.container k id = some c → (m.process.objects c.object).id = id
  joined : m.Joined

/-- A component that is added under the id of a component of the other kind. -/
def Clashes (m : Manager δ) : Request δ → Prop
  | .post (.plugin config) => m.find .plugins config.id = none ∧
      (m.find .hardware config.id).isSome ∧ (PluginType.ofName config.type).isSome
  | .post (.hardware config) => m.find .hardware config.id = none ∧
      (m.find .plugins config.id).isSome
  | _ => False

/-- The destination of a link is looked up in the repository, which finds the members of
`Object.prototype` there too. -/
def NamesPlainly : Request δ → Prop
  | .post (.link config) => PlainKey config.destinationComponent
  | _ => True

/-- An operation that names no such member. -/
abbrev PlainRequest (δ : Type) := { op : Request δ // NamesPlainly op }

/-- A sequence of operations none of which clashes. -/
def NeverClashes (m : Manager δ) : List (Request δ) → Prop
  | [] => True
  | op :: ops => ¬m.Clashes op ∧ (m.perform op).NeverClashes ops

/-! ## One operation -/

theorem Joined.grows (hj : m.Joined) (h : m.Grows x m')
    (hfree : m.process.netRepository.get x.id = none) : m'.Joined := by
  obtain ⟨c, hadd, -⟩ := h.behind
  intro key link hl
  rw [hadd.links] at hl
  obtain ⟨hs, hd⟩ := hj key link hl
  have hne : ∀ {id r}, (m.process.netRepository.get id).map NetContainer.object = some r →
      id ≠ x.id := by
    intro id r hr he
    simp [he, hfree] at hr
  rw [hadd.netRepository, Dictionary.get_set_of_ne (hne hs), Dictionary.get_set_of_ne (hne hd)]
  exact ⟨hs, hd⟩

theorem Joined.shrinks (hs : m.Sound) (hj : m.Joined) (h : m.Shrinks k id m') : m'.Joined := by
  obtain ⟨c, hold, hgone, -⟩ := h.behind
  rw [(hs.object hold).2] at hgone
  intro key link hl
  rw [hgone.links] at hl
  obtain ⟨hsource, hdestination⟩ := h.unlinked key link hl
  rw [hgone.netRepository, Dictionary.get_erase_of_ne hsource,
    Dictionary.get_erase_of_ne hdestination]
  exact hj key link hl

theorem component_eq_ok_iff {p : Process} {r : ObjRef} : Links.component p id = .ok r ↔
    (p.netRepository.get id).map NetContainer.object = some r := by
  unfold Links.component
  cases p.netRepository.get id <;> simp

theorem Joined.addLink {config : LinkItem} (hj : m.Joined) (h : m.addLink config = .ok m') :
    m'.Joined := by
  obtain ⟨⟨p, link⟩, hc, h⟩ := Checked.bind_eq_ok_iff.mp h
  obtain ⟨s, d, hs, hd, -, rfl, rfl⟩ := create_eq_ok hc
  obtain rfl := Except.ok.inj h
  intro key link hl
  rw [Dictionary.get_set] at hl
  split_ifs at hl
  · obtain rfl := Option.some.inj hl
    exact ⟨component_eq_ok_iff.mp hs, component_eq_ok_iff.mp hd⟩
  · exact hj key link hl

theorem Joined.removeLink (hj : m.Joined) (h : m.removeLink id = .ok m') : m'.Joined := by
  unfold Manager.removeLink Links.destroy at h
  cases hg : m.process.links.get id with
  | none =>
    rw [hg] at h
    contradiction
  | some link =>
    simp only [hg, Bool.not_true, Bool.false_eq_true, if_false] at h
    obtain rfl := Except.ok.inj h
    intro key other hl
    change (m.process.links.erase id).get key = some other at hl
    rw [Dictionary.get_erase] at hl
    split_ifs at hl
    exact hj key other hl

theorem Sound.joined_handle (hs : m.Sound) (hj : m.Joined) (h : m.handle op = .ok m')
    (hd : m'.Distinct) : m'.Joined := by
  have hfree : ∀ x : Item δ, m.Grows x m' → x.kind ≠ .links →
      m.process.netRepository.get x.id = none := by
    intro x hg hx
    by_contra hsome
    have hcomponent := (hs.published x.id).mp (Option.isSome_iff_ne_none.mpr hsome)
    have hnone : m.find x.kind x.id = none := by
      have hbefore := hg.effect.before
      simpa using hbefore
    have hnew := hg.effect.after
    have hdistinct := hd x.id
    rw [hnew, hnew] at hdistinct
    cases x with
    | plugin c => rcases hcomponent with h | h <;> simp_all
    | hardware c => rcases hcomponent with h | h <;> simp_all
    | link => contradiction
  cases op with
  | del target =>
    obtain ⟨kind, id⟩ := target
    cases kind with
    | plugins => exact hj.shrinks hs (removePlugin_eq_ok h)
    | hardware => exact hj.shrinks hs (removeHardware_eq_ok h)
    | links => exact hj.removeLink h
  | post item =>
    cases item with
    | plugin config =>
      have hg := addPlugin_eq_ok h
      exact hj.grows hg (hfree _ hg (by simp))
    | hardware config =>
      have hg := addHardware_eq_ok h
      exact hj.grows hg (hfree _ hg (by simp))
    | link config => exact hj.addLink h

/-- A sound state whose repository holds what the components have published. -/
structure Running (m : Manager δ) : Prop extends Sound m where
  joined : m.Joined
  exact : ∀ {k id c}, m.container k id = some c → m.process.netRepository.get id = some c

theorem running_empty : Running (empty : Manager δ) := by
  refine ⟨sound_empty, fun key link h => ?_, fun {k _ _} h => ?_⟩
  · simp [empty, Process.empty] at h
  · cases k <;> simp [container, empty] at h

/-- Components of different kinds have different ids. -/
theorem Sound.kind_eq (hs : m.Sound) {k' : Kind} {c c' : NetContainer}
    (h : m.container k id = some c) (h' : m.container k' id = some c') : k = k' := by
  have hlinks : ∀ {k c}, m.container k id = some c → k ≠ .links := by
    intro k c hc hk
    subst hk
    contradiction
  have hfind : ∀ {k c}, m.container k id = some c → (m.find k id).isSome := by
    intro k c hc
    rw [← container_isSome (hlinks hc), hc]
    rfl
  have hk := hfind h
  have hk' := hfind h'
  have hd := hs.distinct id
  cases k <;> cases k' <;> simp_all [container]

theorem Running.handle (hr : m.Running) (h : m.handle op = .ok m') (hd : m'.Distinct) :
    m'.Running := by
  have hs : m'.Sound := hr.toSound.handle h hd
  refine ⟨hs, hr.toSound.joined_handle hr.joined h hd, fun {k id c} hc => ?_⟩
  have hgrows : ∀ x, m.Grows x m' → m'.process.netRepository.get id = some c := by
    intro x hg
    obtain ⟨c', hadd, hafter⟩ := hg.behind
    have hnew : m'.container x.kind x.id = some c' := by
      rw [hafter]
      simp
    rw [hadd.netRepository]
    by_cases hid : id = x.id
    · subst hid
      obtain rfl := hs.kind_eq hc hnew
      rw [Dictionary.get_set_self, ← hnew, hc]
    · rw [Dictionary.get_set_of_ne hid]
      rw [hafter, if_neg fun hk => hid hk.2] at hc
      exact hr.exact hc
  have hshrinks : ∀ k' id', m.Shrinks k' id' m' → m'.process.netRepository.get id = some c := by
    intro k' id' hg
    obtain ⟨c', hold, hgone, hafter⟩ := hg.behind
    rw [(hr.object hold).2] at hgone
    rw [hafter] at hc
    split_ifs at hc with hk
    have hid : id ≠ id' := by
      intro he
      subst he
      exact hk ⟨hr.kind_eq hc hold, rfl⟩
    rw [hgone.netRepository, Dictionary.get_erase_of_ne hid]
    exact hr.exact hc
  have hrelinks : ∀ req, m.Relinks req m' → m'.process.netRepository.get id = some c := by
    intro req hg
    rw [hg.netRepository]
    rw [hg.container] at hc
    exact hr.exact hc
  match op with
  | .del (.plugins, _) => exact hshrinks _ _ (removePlugin_eq_ok h)
  | .del (.hardware, _) => exact hshrinks _ _ (removeHardware_eq_ok h)
  | .del (.links, _) => exact hrelinks _ (removeLink_eq_ok h)
  | .post (.plugin _) => exact hgrows _ (addPlugin_eq_ok h)
  | .post (.hardware _) => exact hgrows _ (addHardware_eq_ok h)
  | .post (.link _) => exact hrelinks _ (addLink_eq_ok h)

theorem Running.coherent (hr : m.Running) : m.Coherent := by
  refine ⟨fun id c => ⟨fun hg => ?_, fun h => h.elim hr.exact hr.exact⟩,
    fun k id c hc => (hr.object hc).2, hr.joined⟩
  have hthere : ∀ k ≠ .links, (m.find k id).isSome → m.container k id = some c := by
    intro k hk hf
    rw [← container_isSome hk] at hf
    obtain ⟨c', hc⟩ := Option.isSome_iff_exists.mp hf
    have hsame := hr.exact hc
    rw [hg] at hsame
    rwa [Option.some.inj hsame]
  exact ((hr.published id).mp (by rw [hg]; rfl)).imp (hthere _ (by decide)) (hthere _ (by decide))

/-! ## Sequences of operations -/

theorem Running.distinct_handle (hr : m.Running) (h : m.handle op = .ok m')
    (hc : ¬m.Clashes op) : m'.Distinct := by
  intro id hp
  have hold := hr.distinct id
  match op with
  | .del key =>
    have he := (effect_of_handle h).after
    rw [he] at hp ⊢
    grind [Request.stored, Request.result_del]
  | .post (.link config) =>
    have he := (addLink_eq_ok h).effect.after
    rw [he] at hp ⊢
    simpa [Request.stored, Item.stored] using hold (by simpa [Request.stored, Item.stored] using hp)
  | .post (.hardware config) =>
    have he := (addHardware_eq_ok h).effect
    have hnone : m.find .hardware config.id = none := by simpa using he.before
    rw [he.after] at hp ⊢
    by_cases hid : id = config.id
    · subst hid
      exact absurd ⟨hnone, by simpa using hp⟩ hc
    · simpa [hid] using hold (by simpa [hid] using hp)
  | .post (.plugin config) =>
    have he := (addPlugin_eq_ok h).effect
    have hnone : m.find .plugins config.id = none := by simpa using he.before
    obtain ⟨u, hu, -⟩ := Checked.bind_eq_ok_iff.mp h
    have hknown := isSome_ofName_of_createPlugin hu
    rw [he.after] at hp ⊢
    by_cases hid : id = config.id
    · subst hid
      by_contra hother
      exact hc ⟨hnone, Option.isSome_iff_ne_none.mpr (by simpa using hother), hknown⟩
    · simpa [hid] using hold (by simpa [hid] using hp)

theorem Running.perform (hr : m.Running) (hc : ¬m.Clashes op) : (m.perform op).Running := by
  unfold Manager.perform
  cases h : m.handle op with
  | error e => exact hr
  | ok m' => exact hr.handle h (hr.distinct_handle h hc)

/-- A clash leaves two components and one entry of the repository. -/
theorem Running.not_coherent (hr : m.Running) (hc : m.Clashes op) : ¬(m.perform op).Coherent := by
  intro hcoherent
  have hgrows : ∀ x m', m.Grows x m' → (∃ k, k ≠ x.kind ∧ k ≠ .links ∧ (m.find k x.id).isSome) →
      ¬m'.Coherent := by
    intro x m' hg ⟨k, hk, hlinks, hfind⟩ hcoherent
    obtain ⟨c, hadd, hafter⟩ := hg.behind
    have hnew : m'.container x.kind x.id = some c := by
      rw [hafter]
      simp
    rw [← container_isSome hlinks] at hfind
    obtain ⟨c', hold⟩ := Option.isSome_iff_exists.mp hfind
    have hkept : m'.container k x.id = some c' := by
      rw [hafter, if_neg fun hc => hk hc.1]
      exact hold
    have hpub : ∀ {k c}, m'.container k x.id = some c →
        m'.process.netRepository.get x.id = some c := by
      intro k c hc
      cases k with
      | plugins => exact (hcoherent.published _ _).mpr (.inl hc)
      | hardware => exact (hcoherent.published _ _).mpr (.inr hc)
      | links => contradiction
    have hsame := (hpub hnew).symm.trans (hpub hkept)
    obtain rfl := Option.some.inj hsame
    have hlt := (hr.object hold).1
    rw [hadd.object] at hlt
    exact lt_irrefl _ hlt
  match op with
  | .post (.plugin config) =>
    obtain ⟨hnone, hother, hknown⟩ := hc
    obtain ⟨x, hx⟩ := Option.isSome_iff_exists.mp hother
    obtain ⟨m', hm⟩ := exists_addPlugin (hr.plain (by simp) hx) hnone hknown
    refine hgrows _ m' (addPlugin_eq_ok hm) ⟨.hardware, by simp, by simp, hother⟩ ?_
    simpa [Manager.perform, Manager.handle, hm] using hcoherent
  | .post (.hardware config) =>
    obtain ⟨hnone, hother⟩ := hc
    obtain ⟨x, hx⟩ := Option.isSome_iff_exists.mp hother
    obtain ⟨m', hm⟩ := exists_addHardware (hr.plain (by simp) hx) hnone
    refine hgrows _ m' (addHardware_eq_ok hm) ⟨.plugins, by simp, by simp, hother⟩ ?_
    simpa [Manager.perform, Manager.handle, hm] using hcoherent

theorem Running.coherent_iff (hr : m.Running) :
    (∀ before, before <+: ops → (m.performAll before).Coherent) ↔ m.NeverClashes ops := by
  induction ops generalizing m with
  | nil =>
    refine ⟨fun _ => trivial, fun _ before h => ?_⟩
    obtain rfl := List.prefix_nil.mp h
    exact hr.coherent
  | cons op ops ih =>
    constructor
    · intro h
      have hc : ¬m.Clashes op := fun hc => hr.not_coherent hc (h [op] (by simp))
      refine ⟨hc, (ih (hr.perform hc)).mp fun before hb => ?_⟩
      exact h (op :: before) (List.cons_prefix_cons.mpr ⟨rfl, hb⟩)
    · intro ⟨hc, hrest⟩ before hb
      cases before with
      | nil => exact hr.coherent
      | cons op' before =>
        obtain ⟨rfl, hrest'⟩ := List.cons_prefix_cons.mp hb
        exact (ih (hr.perform hc)).mpr hrest before hrest'

/-- From an empty core, the registries agree after every operation exactly when none clashes. -/
theorem registries_agree_iff (ops : List (PlainRequest δ)) :
    (∀ before, before <+: ops.map Subtype.val → ((empty : Manager δ).performAll before).Coherent) ↔
      (empty : Manager δ).NeverClashes (ops.map Subtype.val) :=
  running_empty.coherent_iff

/-- A plugin and a hardware with one id share one entry of the repository. -/
theorem registries_disagree : ¬∀ ops : List (Request Unit), ∀ before, before <+: ops →
    ((empty : Manager Unit).performAll before).Coherent := by
  intro h
  have hnew : ¬(empty : Manager Unit).Clashes (.post (.plugin ⟨"a", "light", ()⟩)) := by
    simp [Clashes, find_empty]
  have hclash : ((empty : Manager Unit).perform (.post (.plugin ⟨"a", "light", ()⟩))).Clashes
      (.post (.hardware ⟨"a", ⟨[]⟩, ()⟩)) := ⟨rfl, rfl⟩
  have hagree := h [.post (.plugin ⟨"a", "light", ()⟩), .post (.hardware ⟨"a", ⟨[]⟩, ()⟩)] _
    List.prefix_rfl
  exact (running_empty.perform hnew).not_coherent hclash hagree

end MyLifeHome.Manager
