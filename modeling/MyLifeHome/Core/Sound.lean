import MyLifeHome.Core.Api

/-!
# Sound states of the core

Every entry of a registry stands under its own id, and the repository of objects has components
only; no request changes that. As long as no plugin has the id of a hardware, the repository has all
of them. The requests that succeed are known.
-/
namespace MyLifeHome.Manager

variable {δ : Type} {m m' : Manager δ} {k : Kind} {id : String} {x : Item δ} {req : Request δ}

def Component (m : Manager δ) (id : String) : Prop :=
  (m.find .plugins id).isSome ∨ (m.find .hardware id).isSome

/-- Every entry stands under its own id, and no component under a key that every object has. -/
structure Keyed (m : Manager δ) : Prop where
  item : ∀ {k id x}, m.find k id = some x → x.kind = k ∧ x.id = id
  named : ∀ {id x}, m.find .links id = some x → x.Named
  plain : ∀ {k id x}, k ≠ .links → m.find k id = some x → PlainKey id

def Distinct (m : Manager δ) : Prop :=
  ∀ id, (m.find .plugins id).isSome → m.find .hardware id = none

/-- What every core keeps. -/
structure Kept (m : Manager δ) : Prop extends Keyed m where
  /-- The objects of the repository are those of components. -/
  component : ∀ id, (m.process.netRepository.get id).isSome → m.Component id
  /-- The object of a component has its id. -/
  object : ∀ {k id c}, m.container k id = some c →
    c.object < m.process.allocated ∧ (m.process.objects c.object).id = id

structure Sound (m : Manager δ) : Prop extends Kept m where
  distinct : m.Distinct
  registered : ∀ id, m.Component id → (m.process.netRepository.get id).isSome

theorem Sound.published (hs : m.Sound) (id : String) :
    (m.process.netRepository.get id).isSome ↔ m.Component id :=
  ⟨hs.component id, hs.registered id⟩

/-- A core that has nothing. -/
def empty : Manager δ := ⟨.empty, .empty, .empty, ⟨.empty, .empty, .empty⟩⟩

theorem find_empty : (empty : Manager δ).find k id = none := by
  cases k <;> simp [find, empty, Process.empty]

theorem sound_empty : Sound (empty : Manager δ) := by
  refine ⟨⟨⟨fun h => ?_, fun h => ?_, fun _ h => ?_⟩, fun id h => ?_, fun {k _ _} h => ?_⟩,
    fun id h => ?_, fun id h => ?_⟩
  · simp [find_empty] at h
  · simp [find_empty] at h
  · simp [find_empty] at h
  · simp [empty, Process.empty] at h
  · cases k <;> simp [container, empty] at h
  · simp [find_empty] at h
  · simp [Component, find_empty] at h

theorem named_stored : x.stored.Named := by
  cases x <;> simp [Item.stored, Item.Named]

theorem Keyed.handle (hk : m.Keyed) (h : m.handle req = .ok m') : m'.Keyed := by
  have he := effect_of_handle h
  have hnew : ∀ {k id x}, k = req.stored.kind ∧ id = req.stored.id → req.stored.result = some x →
      x.kind = k ∧ x.id = id ∧ x.Named := by
    intro k id x hreq hx
    cases req with
    | del => contradiction
    | post y =>
      obtain rfl := Option.some.inj hx
      exact ⟨hreq.1.symm, hreq.2.symm, named_stored⟩
  constructor
  · intro k id x hx
    rw [he.after] at hx
    split_ifs at hx with hreq
    · obtain ⟨hkind, hid, -⟩ := hnew hreq hx
      exact ⟨hkind, hid⟩
    · exact hk.item hx
  · intro id x hx
    rw [he.after] at hx
    split_ifs at hx with hreq
    · exact (hnew hreq hx).2.2
    · exact hk.named hx
  · intro k id x hlinks hx
    rw [he.after] at hx
    split_ifs at hx with hreq
    · cases req with
      | del => contradiction
      | post y =>
        have hkind : y.kind ≠ .links := by
          intro hy
          cases y with
          | plugin => contradiction
          | hardware => contradiction
          | link => exact hlinks hreq.1
        have hplain := plain_of_post h hkind
        rw [hreq.2]
        cases y with
        | plugin => exact hplain
        | hardware => exact hplain
        | link => contradiction
    · exact hk.plain hlinks hx

/-- The object of a component has its id. -/
def Owned (m : Manager δ) : Prop := ∀ k id c, m.container k id = some c →
  c.object < m.process.allocated ∧ (m.process.objects c.object).id = id

theorem Owned.grows (ho : m.Owned) (h : m.Grows x m') : m'.Owned := by
  obtain ⟨c, hadd, hc⟩ := h.behind
  intro k id c' hg
  rw [hc] at hg
  rw [hadd.allocated]
  split_ifs at hg with hnew
  · obtain rfl := Option.some.inj hg
    rw [hadd.object, hadd.id, hnew.2]
    exact ⟨Nat.lt_succ_self _, rfl⟩
  · obtain ⟨hlt, hid⟩ := ho _ _ _ hg
    exact ⟨hlt.trans (Nat.lt_succ_self _), (hadd.others _ hlt).trans hid⟩

theorem Owned.shrinks (ho : m.Owned) (h : m.Shrinks k id m') : m'.Owned := by
  obtain ⟨c, hold, hgone, hc⟩ := h.behind
  intro k' id' c' hg
  rw [hc] at hg
  split_ifs at hg
  obtain ⟨hlt, hid⟩ := ho _ _ _ hg
  exact ⟨by rwa [hgone.allocated], (hgone.id _).trans hid⟩

theorem Owned.relinks (ho : m.Owned) (h : m.Relinks req m') : m'.Owned := by
  intro k id c hg
  rw [h.container] at hg
  rw [h.objects, h.allocated]
  exact ho _ _ _ hg

theorem Owned.handle (ho : m.Owned) (h : m.handle req = .ok m') : m'.Owned := by
  match req with
  | .del (.plugins, _) => exact ho.shrinks (removePlugin_eq_ok h)
  | .del (.hardware, _) => exact ho.shrinks (removeHardware_eq_ok h)
  | .del (.links, _) => exact ho.relinks (removeLink_eq_ok h)
  | .post (.plugin _) => exact ho.grows (addPlugin_eq_ok h)
  | .post (.hardware _) => exact ho.grows (addHardware_eq_ok h)
  | .post (.link _) => exact ho.relinks (addLink_eq_ok h)

theorem Kept.owned (hk : m.Kept) : m.Owned := fun _ _ _ => hk.object

/-! ## Components -/

theorem Effect.component_post (he : m.Effect (.post x) m') (h : m.Component id) :
    m'.Component id := by
  rw [Component, he.after, he.after]
  refine h.imp (fun hp => ?_) fun hp => ?_
  · split_ifs
    · rfl
    · exact hp
  · split_ifs
    · rfl
    · exact hp

theorem Effect.component_del (he : m.Effect (.del (k, id)) m') {id' : String} (hne : id' ≠ id)
    (h : m.Component id') : m'.Component id' := by
  rw [Component, he.after, he.after]
  simpa [Component, hne] using h

theorem component_relinks (h : m.Relinks req m') (hreq : req.kind = .links) :
    m'.Component id ↔ m.Component id := by
  have hsame : ∀ k ≠ .links, ∀ id, m'.find k id = m.find k id := by
    intro k hk id
    rw [h.effect.after, if_neg (fun hc => hk (hc.1.trans hreq))]
  rw [Component, Component, hsame _ (by decide), hsame _ (by decide)]

theorem Grows.component (h : m.Grows x m') (hx : x.kind ≠ .links) : m'.Component x.id := by
  have hfound : m'.find x.kind x.id = some x := by
    rw [h.effect.after]
    simp
  cases x with
  | plugin => exact .inl (Option.isSome_of_mem hfound)
  | hardware => exact .inr (Option.isSome_of_mem hfound)
  | link => contradiction

/-- Every request that succeeds keeps it. -/
theorem Kept.handle (hk : m.Kept) (h : m.handle req = .ok m') : m'.Kept := by
  have hgrows : ∀ {x}, m.Grows x m' → x.kind ≠ .links →
      ∀ id, (m'.process.netRepository.get id).isSome → m'.Component id := by
    intro x hg hx id hid
    obtain ⟨c, hadd, -⟩ := hg.behind
    by_cases hx' : id = x.id
    · exact hx' ▸ hg.component hx
    · rw [hadd.netRepository, Dictionary.get_set_of_ne hx'] at hid
      exact hg.effect.component_post (hk.component id hid)
  have hshrinks : ∀ {k i}, m.Shrinks k i m' →
      ∀ id, (m'.process.netRepository.get id).isSome → m'.Component id := by
    intro k i hg id hid
    obtain ⟨c, hold, hgone, -⟩ := hg.behind
    rw [hgone.netRepository, (hk.object hold).2, Dictionary.get_erase] at hid
    split_ifs at hid with hi
    · contradiction
    · exact hg.effect.component_del hi (hk.component id hid)
  have hrelinks : ∀ {req}, m.Relinks req m' → req.kind = .links →
      ∀ id, (m'.process.netRepository.get id).isSome → m'.Component id := by
    intro req hg hreq id hid
    rw [hg.netRepository] at hid
    exact (component_relinks hg hreq).mpr (hk.component id hid)
  refine ⟨hk.toKeyed.handle h, ?_, hk.owned.handle h _ _ _⟩
  cases req with
  | del key =>
    obtain ⟨k, i⟩ := key
    cases k with
    | plugins => exact hshrinks (removePlugin_eq_ok h)
    | hardware => exact hshrinks (removeHardware_eq_ok h)
    | links => exact hrelinks (removeLink_eq_ok h) rfl
  | post x =>
    cases x with
    | plugin => exact hgrows (addPlugin_eq_ok h) (by simp)
    | hardware => exact hgrows (addHardware_eq_ok h) (by simp)
    | link => exact hrelinks (addLink_eq_ok h) rfl

/-- An object of the repository goes only with its component. -/
theorem Kept.registered_of_handle (hk : m.Kept) (h : m.handle req = .ok m')
    (hid : (m.process.netRepository.get id).isSome)
    (hdel : ∀ k, req = .del (k, id) → k = .links) : (m'.process.netRepository.get id).isSome := by
  have hgrows : ∀ {x}, m.Grows x m' → (m'.process.netRepository.get id).isSome := by
    intro x hg
    obtain ⟨c, hadd, -⟩ := hg.behind
    rw [hadd.netRepository, Dictionary.get_set]
    split_ifs
    · rfl
    · exact hid
  have hshrinks : ∀ {k i}, m.Shrinks k i m' → id ≠ i → (m'.process.netRepository.get id).isSome := by
    intro k i hg hne
    obtain ⟨c, hold, hgone, -⟩ := hg.behind
    rwa [hgone.netRepository, (hk.object hold).2, Dictionary.get_erase_of_ne hne]
  cases req with
  | del key =>
    obtain ⟨k, i⟩ := key
    cases k with
    | plugins =>
      exact hshrinks (removePlugin_eq_ok h) fun he => absurd (hdel _ (by rw [he])) (by simp)
    | hardware =>
      exact hshrinks (removeHardware_eq_ok h) fun he => absurd (hdel _ (by rw [he])) (by simp)
    | links => rwa [(removeLink_eq_ok h).netRepository]
  | post x =>
    cases x with
    | plugin => exact hgrows (addPlugin_eq_ok h)
    | hardware => exact hgrows (addHardware_eq_ok h)
    | link => rwa [(addLink_eq_ok h).netRepository]

theorem Grows.registered (h : m.Grows x m') : (m'.process.netRepository.get x.id).isSome := by
  obtain ⟨c, hadd, -⟩ := h.behind
  rw [hadd.netRepository, Dictionary.get_set_self]
  rfl

theorem registered_of_post (h : m.handle (.post x) = .ok m') (hx : x.kind ≠ .links) :
    (m'.process.netRepository.get x.id).isSome := by
  cases x with
  | plugin => exact (addPlugin_eq_ok h).registered
  | hardware => exact (addHardware_eq_ok h).registered
  | link => contradiction

/-- An object of the repository comes only with its component. -/
theorem registered_origin (h : m.handle req = .ok m')
    (hid : (m'.process.netRepository.get id).isSome) : (m.process.netRepository.get id).isSome ∨
      ∃ x, req = .post x ∧ x.kind ≠ .links ∧ x.id = id := by
  have hgrows : ∀ {x}, m.Grows x m' → id ≠ x.id → (m.process.netRepository.get id).isSome := by
    intro x hg hne
    obtain ⟨c, hadd, -⟩ := hg.behind
    rwa [hadd.netRepository, Dictionary.get_set_of_ne hne] at hid
  have hshrinks : ∀ {k i}, m.Shrinks k i m' → (m.process.netRepository.get id).isSome := by
    intro k i hg
    obtain ⟨c, -, hgone, -⟩ := hg.behind
    rw [hgone.netRepository, Dictionary.get_erase] at hid
    split_ifs at hid
    · contradiction
    · exact hid
  cases req with
  | del key =>
    obtain ⟨k, i⟩ := key
    cases k with
    | plugins => exact .inl (hshrinks (removePlugin_eq_ok h))
    | hardware => exact .inl (hshrinks (removeHardware_eq_ok h))
    | links => exact .inl (by rwa [(removeLink_eq_ok h).netRepository] at hid)
  | post x =>
    cases x with
    | plugin config =>
      by_cases hne : id = config.id
      · exact .inr ⟨_, rfl, by simp, hne.symm⟩
      · exact .inl (hgrows (addPlugin_eq_ok h) hne)
    | hardware config =>
      by_cases hne : id = config.id
      · exact .inr ⟨_, rfl, by simp, hne.symm⟩
      · exact .inl (hgrows (addHardware_eq_ok h) hne)
    | link => exact .inl (by rwa [(addLink_eq_ok h).netRepository] at hid)

theorem registered_grows (hr : ∀ id, m.Component id → (m.process.netRepository.get id).isSome)
    (h : m.Grows x m') :
    ∀ id, m'.Component id → (m'.process.netRepository.get id).isSome := by
  obtain ⟨c, hadd, -⟩ := h.behind
  intro id hid
  rw [hadd.netRepository, Dictionary.get_set]
  split_ifs with hne
  · rfl
  · refine hr id ?_
    rw [Component, h.effect.after, h.effect.after] at hid
    simpa [Component, hne] using hid

/-- A component that goes was the only one of its id. -/
theorem Sound.registered_shrinks (hs : m.Sound) (h : m.Shrinks k id m') :
    ∀ id', m'.Component id' → (m'.process.netRepository.get id').isSome := by
  obtain ⟨c, hold, hgone, -⟩ := h.behind
  have hafter := h.effect.after
  simp only [Request.kind_del, Request.id_del, Request.result_del] at hafter
  have hcomponent : k ≠ .links := by
    rintro rfl
    contradiction
  have hthere : (m.find k id).isSome := by
    rw [← container_isSome hcomponent, hold]
    rfl
  intro id' hid
  rw [Component, hafter, hafter] at hid
  rw [hgone.netRepository, (hs.object hold).2, Dictionary.get_erase]
  have hd := hs.distinct id
  by_cases hne : id' = id
  · subst hne
    cases k <;> simp_all
  · rw [if_neg hne]
    exact hs.registered id' (by simpa [Component, hne] using hid)

/-- A request that succeeds leaves a sound state if it leaves the ids distinct. -/
theorem Sound.handle (hs : m.Sound) (h : m.handle req = .ok m') (hd : m'.Distinct) :
    m'.Sound := by
  refine ⟨hs.toKept.handle h, hd, ?_⟩
  have hrelinks : ∀ {req}, m.Relinks req m' → req.kind = .links →
      ∀ id, m'.Component id → (m'.process.netRepository.get id).isSome := by
    intro req hg hreq id hid
    rw [hg.netRepository]
    exact hs.registered id ((component_relinks hg hreq).mp hid)
  match req with
  | .del (.plugins, _) => exact hs.registered_shrinks (removePlugin_eq_ok h)
  | .del (.hardware, _) => exact hs.registered_shrinks (removeHardware_eq_ok h)
  | .del (.links, _) => exact hrelinks (removeLink_eq_ok h) rfl
  | .post (.plugin _) => exact registered_grows hs.registered (addPlugin_eq_ok h)
  | .post (.hardware _) => exact registered_grows hs.registered (addHardware_eq_ok h)
  | .post (.link _) => exact hrelinks (addLink_eq_ok h) rfl

/-! ## Runs of requests -/

theorem Keyed.run {es : List (Request δ)} (hk : m.Keyed)
    (h : es.foldlM Manager.handle m = .ok m') : m'.Keyed :=
  Checked.foldlM_invariant (I := Keyed) (fun _ hu hh => hu.handle hh) h hk

section
variable {es : List (Request δ)} (hn : ∀ req ∈ es, req.Named)
  (h : es.foldlM Manager.handle m = .ok m')
include hn h

/-- What is found and never deleted is found afterwards. -/
theorem find_kept (hx : m.find k id = some x) (hdel : .del (k, id) ∉ es) :
    m'.find k id = some x := by
  refine Checked.foldlM_invariant (I := fun u => u.find k id = some x) ?_ h hx
  intro u req u' hmem hu hh
  have he := effect_of_named hh (hn req hmem)
  rw [he.after]
  split_ifs with hreq
  · have hresult := he.before.mp (by rw [← hreq.1, ← hreq.2, hu]; rfl)
    cases req with
    | post y => contradiction
    | del key =>
      obtain rfl : (k, id) = key := Prod.ext hreq.1 hreq.2
      contradiction
  · exact hu

/-- What is found was found before or has been posted. -/
theorem find_origin (hx : m'.find k id = some x) : m.find k id = some x ∨ .post x ∈ es := by
  refine Checked.foldlM_invariant
    (I := fun u => u.find k id = some x → m.find k id = some x ∨ .post x ∈ es) ?_ h .inl hx
  intro u req u' hmem hu hh hx'
  rw [(effect_of_named hh (hn req hmem)).after] at hx'
  split_ifs at hx'
  · cases req with
    | del => contradiction
    | post y =>
      obtain rfl := Option.some.inj hx'
      exact .inr hmem
  · exact hu hx'

end

/-- What a run of requests registers was registered before or has been posted. -/
theorem registered_run {es : List (Request δ)} {u : Manager δ}
    (h : es.foldlM Manager.handle m = .ok u)
    (hid : (u.process.netRepository.get id).isSome) : (m.process.netRepository.get id).isSome ∨
      ∃ x, .post x ∈ es ∧ x.kind ≠ .links ∧ x.id = id := by
  refine Checked.foldlM_invariant (I := fun u => (u.process.netRepository.get id).isSome →
    (m.process.netRepository.get id).isSome ∨ ∃ x, .post x ∈ es ∧ x.kind ≠ .links ∧ x.id = id)
    ?_ h .inl hid
  intro v req v' hmem hv hh hid
  rcases registered_origin hh hid with hold | ⟨x, rfl, hk, hxid⟩
  · exact hv hold
  · exact .inr ⟨x, hmem, hk, hxid⟩

/-- The state in which a request of a run is made. -/
theorem exists_state_of_mem {es : List (Request δ)} (h : es.foldlM Manager.handle m = .ok m')
    (hmem : req ∈ es) : ∃ before after u v, es = before ++ req :: after ∧
      before.foldlM Manager.handle m = .ok u ∧ u.handle req = .ok v := by
  obtain ⟨before, after, rfl⟩ := List.append_of_mem hmem
  rw [List.foldlM_append] at h
  obtain ⟨u, hu, h⟩ := Checked.bind_eq_ok_iff.mp h
  rw [List.foldlM_cons] at h
  obtain ⟨v, hv, -⟩ := Checked.bind_eq_ok_iff.mp h
  exact ⟨before, after, u, v, rfl, hu, hv⟩

theorem unlinked_of_handle (h : m.handle (.del (k, id)) = .ok m') (hk : k ≠ .links) :
    m.Unlinked id := by
  match k with
  | .plugins => exact (removePlugin_eq_ok h).unlinked
  | .hardware => exact (removeHardware_eq_ok h).unlinked
  | .links => contradiction

/-- A run that deletes a component deletes the links that have it as an end. -/
theorem del_link_mem {es : List (Request δ)} (hn : ∀ req ∈ es, req.Named)
    (h : es.foldlM Manager.handle m = .ok m') {l : LinkItem}
    (hl : m.find .links l.id = some (.link l)) (hk : k ≠ .links) (hmem : .del (k, id) ∈ es)
    (hend : l.sourceComponent = id ∨ l.destinationComponent = id) : .del (.links, l.id) ∈ es := by
  by_contra hdel
  obtain ⟨before, after, rfl⟩ := List.append_of_mem hmem
  rw [List.foldlM_append] at h
  obtain ⟨u, hu, h⟩ := Checked.bind_eq_ok_iff.mp h
  rw [List.foldlM_cons] at h
  obtain ⟨v, hv, -⟩ := Checked.bind_eq_ok_iff.mp h
  have hkept := find_kept (fun req hreq => hn req (List.mem_append_left _ hreq)) hu hl
    fun hreq => hdel (List.mem_append_left _ hreq)
  obtain ⟨link, hlink, heq⟩ := Option.map_eq_some_iff.mp hkept
  have hfree := unlinked_of_handle hv hk _ link hlink
  obtain rfl := Item.link.inj heq
  exact hend.elim hfree.1 hfree.2

/-! ## Requests that succeed -/

/-- What a request needs. -/
def Ready (m : Manager δ) : Request δ → Prop
  | .del (k, id) => (m.find k id).isSome ∧ (k ≠ .links → m.Unlinked id)
  | .post (.plugin config) => PlainKey config.id ∧ m.find .plugins config.id = none ∧
      (PluginType.ofName config.type).isSome
  | .post (.hardware config) => PlainKey config.id ∧ m.find .hardware config.id = none
  | .post (.link config) => m.find .links config.id = none ∧
      (m.process.netRepository.get config.sourceComponent).isSome ∧
      (m.process.netRepository.get config.destinationComponent).isSome

theorem exists_removePlugin (hf : (m.find .plugins id).isSome) (hu : m.Unlinked id) :
    ∃ m', m.removePlugin id = .ok m' := by
  obtain ⟨c, hc⟩ : ∃ c, m.pluginContainers.get id = some c := by
    simpa [find, Option.isSome_iff_exists] using hf
  simp [removePlugin, checkLink_eq_ok_iff.mpr hu, destroyPlugin, hc, bind, Except.bind, pure,
    Except.pure]

theorem exists_removeHardware (hf : (m.find .hardware id).isSome) (hu : m.Unlinked id) :
    ∃ m', m.removeHardware id = .ok m' := by
  obtain ⟨item, hi⟩ : ∃ item, m.hardware.get id = some item := by
    simpa [find, Option.isSome_iff_exists] using hf
  simp [removeHardware, checkLink_eq_ok_iff.mpr hu, destroyHardware, hi, bind, Except.bind, pure,
    Except.pure]

theorem exists_removeLink (hf : (m.find .links id).isSome) : ∃ m', m.removeLink id = .ok m' := by
  obtain ⟨link, hl⟩ : ∃ link, m.process.links.get id = some link := by
    simpa [find, Option.isSome_iff_exists] using hf
  simp [removeLink, Links.destroy, hl, pure, Except.pure]

theorem exists_addPlugin {config : PluginConfig δ} (hplain : PlainKey config.id)
    (hnone : m.find .plugins config.id = none)
    (ht : (PluginType.ofName config.type).isSome) : ∃ m', m.addPlugin config = .ok m' := by
  obtain ⟨type, ht⟩ := Option.isSome_iff_exists.mp ht
  obtain ⟨m', hm⟩ := exists_createPlugin hplain (by simpa [find] using hnone) ht
  exact ⟨_, Checked.bind_eq_ok_iff.mpr ⟨m', hm, rfl⟩⟩

theorem exists_addHardware {config : HardwareConfig δ} (hplain : PlainKey config.id)
    (hnone : m.find .hardware config.id = none) : ∃ m', m.addHardware config = .ok m' := by
  have hfree : m.hardware.get config.id = none := by simpa [find] using hnone
  obtain ⟨m', hm⟩ := exists_createHardware hplain hfree
  exact ⟨_, Checked.bind_eq_ok_iff.mpr ⟨m', hm, rfl⟩⟩

theorem exists_component (h : (m.process.netRepository.get id).isSome) :
    ∃ r, Links.component m.process id = .ok r := by
  obtain ⟨c, hc⟩ := Option.isSome_iff_exists.mp h
  exact ⟨c.object, by simp [Links.component, hc]⟩

theorem exists_addLink {config : LinkItem} (hn : Item.Named (.link config : Item δ))
    (hnone : m.find .links config.id = none)
    (hsource : (m.process.netRepository.get config.sourceComponent).isSome)
    (hdestination : (m.process.netRepository.get config.destinationComponent).isSome) :
    ∃ m', m.addLink config = .ok m' := by
  obtain ⟨source, hs'⟩ := exists_component hsource
  obtain ⟨destination, hd⟩ := exists_component hdestination
  have hfree : m.process.links.get (Links.makeId config.toLinkConfig) = none := by
    change config.id = _ at hn
    rw [← hn]
    simpa [find] using hnone
  simp [addLink, Links.create, hfree, hs', hd, bind, Except.bind, pure, Except.pure]

/-- A request that has what it needs succeeds. -/
theorem exists_handle (hn : req.Named) (hr : m.Ready req) : ∃ m', m.handle req = .ok m' := by
  match req with
  | .del (.plugins, _) => exact exists_removePlugin hr.1 (hr.2 (by decide))
  | .del (.hardware, _) => exact exists_removeHardware hr.1 (hr.2 (by decide))
  | .del (.links, _) => exact exists_removeLink hr.1
  | .post (.plugin _) => exact exists_addPlugin hr.1 hr.2.1 hr.2.2
  | .post (.hardware _) => exact exists_addHardware hr.1 hr.2
  | .post (.link _) => exact exists_addLink hn hr.1 hr.2.1 hr.2.2

end MyLifeHome.Manager
