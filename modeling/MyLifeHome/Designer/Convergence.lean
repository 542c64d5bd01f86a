import MyLifeHome.Designer.Plan

/-!
# A save brings the core to the new design

The requests of a save, run against a sound core, all succeed and leave the new design
exactly when the two designs are mergeable.
-/
namespace MyLifeHome.Designer

open Reconcile

variable {δ : Type} {S D : Design δ} {m m' : Manager δ} {x y : Item δ} {l : LinkItem}
  {full done rest : List (Request δ)} {req : Request δ}

def Design.Component (d : Design δ) (id : String) : Prop :=
  ∃ x, d.Has x ∧ x.kind ≠ .links ∧ x.id = id

/-- Distinct components, links between them that bear the names the core gives, and plugin
types that the core has. -/
structure Design.WellFormed (d : Design δ) : Prop where
  ids : (d.plugins.map PluginConfig.id ++ d.hardware.map HardwareConfig.id).Nodup
  joins : ∀ l ∈ d.links, d.Component l.sourceComponent ∧ d.Component l.destinationComponent
  named : ∀ l ∈ d.links, l.id = Links.makeId l.toLinkConfig
  known : ∀ c ∈ d.plugins, (PluginType.ofName c.type).isSome

/-- Two components with one id are one. -/
def Design.Distinct (d : Design δ) : Prop :=
  ∀ x y, d.Has x → d.Has y → x.kind ≠ .links → y.kind ≠ .links → x.id = y.id → x = y

theorem Design.WellFormed.distinct (h : D.WellFormed) : D.Distinct := by
  obtain ⟨hplugins, hhardware, hdisjoint⟩ := List.nodup_append.mp h.ids
  have hp := List.inj_on_of_nodup_map hplugins
  have hh := List.inj_on_of_nodup_map hhardware
  intro x y hx hy hxk hyk hid
  cases x with
  | link l => contradiction
  | plugin c =>
    cases y with
    | link l => contradiction
    | plugin c' => rw [hp hx hy hid]
    | hardware c' =>
      exact absurd hid (hdisjoint _ (List.mem_map_of_mem hx) _ (List.mem_map_of_mem hy))
  | hardware c =>
    cases y with
    | link l => contradiction
    | plugin c' =>
      exact absurd hid.symm (hdisjoint _ (List.mem_map_of_mem hy) _ (List.mem_map_of_mem hx))
    | hardware c' => rw [hh hx hy hid]

theorem eq_of_id {P : Item δ → Prop}
    (hlinks : ∀ l l', P (.link l) → P (.link l') → l.id = l'.id → l = l')
    (hcomponents : ∀ x y, P x → P y → x.kind ≠ .links → y.kind ≠ .links → x.id = y.id → x = y)
    (hmixed : ∀ l x, P (.link l) → P x → x.kind ≠ .links → l.id ≠ x.id) :
    ∀ x y, P x → P y → x.id = y.id → x = y := by
  intro x y hx hy hid
  cases x with
  | link l =>
    cases y with
    | link l' => rw [hlinks l l' hx hy hid]
    | plugin => exact absurd hid (hmixed l _ hx hy (by simp))
    | hardware => exact absurd hid (hmixed l _ hx hy (by simp))
  | plugin =>
    cases y with
    | link l => exact absurd hid.symm (hmixed l _ hy hx (by simp))
    | plugin => exact hcomponents _ _ hx hy (by simp) (by simp) hid
    | hardware => exact hcomponents _ _ hx hy (by simp) (by simp) hid
  | hardware =>
    cases y with
    | link l => exact absurd hid.symm (hmixed l _ hy hx (by simp))
    | plugin => exact hcomponents _ _ hx hy (by simp) (by simp) hid
    | hardware => exact hcomponents _ _ hx hy (by simp) (by simp) hid

theorem Design.Keyed.link_eq (h : D.Keyed) {l' : LinkItem} (hl : D.Has (.link l))
    (hl' : D.Has (.link l')) (hid : l.id = l'.id) : l = l' :=
  Item.link.inj (h (.link l) (.link l') hl hl' (Prod.ext rfl hid))

theorem Design.WellFormed.named_of_has (h : D.WellFormed) (hx : D.Has x) : x.Named := by
  cases x with
  | plugin => trivial
  | hardware => trivial
  | link l => exact h.named l hx

/-! ## The design of a core -/

theorem data_distinct (hk : m.Keyed) (hdistinct : m.Distinct) : (data m).Distinct := by
  intro x y hx hy hxk hyk hid
  have hfx := (data_has_iff hk).mp hx
  have hfy := (data_has_iff hk).mp hy
  have hd := hdistinct x.id
  rw [← hid] at hfy
  cases hkx : x.kind <;> cases hky : y.kind <;> simp_all

theorem data_keyed (hk : m.Keyed) : (data m).Keyed := by
  intro x y hx hy hkey
  have hfx := (data_has_iff hk).mp hx
  have hfy := (data_has_iff hk).mp hy
  obtain ⟨hkind, hid⟩ := Prod.mk.inj hkey
  rw [hkind, hid, hfy] at hfx
  exact (Option.some.inj hfx).symm

theorem data_nodup_links (hk : m.Keyed) : ((data m).links.map LinkItem.id).Nodup := by
  have hkeys : (data m).links.map LinkItem.id = m.process.links.keys := by
    rw [data, Manager.getLinks, List.map_map, Dictionary.values, Dictionary.keys, List.map_map]
    refine List.map_congr_left fun e he => ?_
    have hfind : m.find .links e.1 = some (.link ⟨e.2.config, e.2.id⟩) := by
      simp [Manager.find, Dictionary.get_eq_some_iff.mpr he]
    exact (hk.item hfind).2
  rw [hkeys]
  exact Dictionary.nodup_keys _

/-! ## Mergeable designs converge -/

theorem keyed_of_mergeable (hm : Mergeable S D) (hd : D.Distinct) : D.Keyed := by
  intro x y hx hy hkey
  obtain ⟨hkind, hid⟩ := Prod.mk.inj hkey
  by_cases hl : x.kind = .links
  · cases x with
    | plugin => contradiction
    | hardware => contradiction
    | link l =>
      cases y with
      | plugin => contradiction
      | hardware => contradiction
      | link l' => rw [hm.links l hx l' hy hid]
  · exact hd x y hx hy hl (hkind ▸ hl) hid

/-- A link that is left alone has no end among the components that go. -/
theorem Mergeable.untouched (hm : Mergeable S D) (hx : Destroyed S D x) (hk : x.kind ≠ .links)
    (hold : S.Has (.link l)) (hnew : D.Has (.link l)) (hr : ¬Recreated S D (.link l)) :
    l.sourceComponent ≠ x.id ∧ l.destinationComponent ≠ x.id := by
  have hends := fun h => hr (hm.ends l hold hnew h)
  cases x with
  | link => contradiction
  | plugin c =>
    have hgone : c ∉ D.plugins := hx.2.resolve_right fun h => h
    constructor
    · intro hs
      exact hends (.inl ⟨c, hx.1, hgone, hs.symm⟩)
    · intro hs
      exact hr (.inr ⟨c, hx.1, hgone, hs.symm⟩)
  | hardware c =>
    have hgone : c ∉ D.hardware := hx.2.resolve_right fun h => h
    constructor
    · intro hs
      exact hr (.inl ⟨c, hx.1, hgone, hs.symm⟩)
    · intro hs
      exact hends (.inr ⟨c, hx.1, hgone, hs.symm⟩)

def Ends (l : LinkItem) (id : String) : Prop := l.sourceComponent = id ∨ l.destinationComponent = id

/-- What a save of the new design needs of the core. -/
structure Savable (m : Manager δ) (D : Design δ) : Prop where
  mergeable : Mergeable (data m) D
  /-- The ends of a link to create are registered, or are to be created themselves. -/
  registered : ∀ l, Created (data m) D (.link l) → ∀ id, Ends l id →
    (m.process.netRepository.get id).isSome ∨
      ∃ x, Created (data m) D x ∧ x.kind ≠ .links ∧ x.id = id
  /-- No component to create has the name of a member of `Object.prototype` as its id. -/
  plain : ∀ x, Created (data m) D x → x.kind ≠ .links → PlainKey x.id

/-- The state of the core when the requests of `rest` remain. -/
structure Stage (S D : Design δ) (full rest : List (Request δ)) (m : Manager δ) : Prop where
  kept : m.Kept
  suffix : ∃ done, full = done ++ rest
  find_iff : ∀ x, m.find x.kind x.id = some x ↔
    x ∈ content key {x | S.Has x} {x | D.Has x} rest
  registered : ∀ l, .post (.link l) ∈ rest → ∀ id, Ends l id →
    (m.process.netRepository.get id).isSome ∨ ∃ x, .post x ∈ rest ∧ x.kind ≠ .links ∧ x.id = id

theorem Stage.has_iff (h : Stage S D full rest m) {k : Kind} {id : String} :
    m.find k id = some x ↔ x ∈ content key {x | S.Has x} {x | D.Has x} rest ∧ key x = (k, id) := by
  constructor
  · intro hx
    obtain ⟨rfl, rfl⟩ := h.kept.item hx
    exact ⟨(h.find_iff x).mp hx, rfl⟩
  · intro ⟨hx, hk⟩
    obtain ⟨rfl, rfl⟩ := Prod.mk.inj hk
    exact (h.find_iff x).mpr hx

theorem Stage.phase_le (h : Stage S D full (req :: rest) m) (hf : Schedule S D full)
    {e : Request δ} (he : e ∈ req :: rest) : phase req ≤ phase e := by
  obtain ⟨done, rfl⟩ := h.suffix
  rcases List.mem_cons.mp he with rfl | he
  · exact le_rfl
  · exact (List.pairwise_cons.mp (List.pairwise_append.mp hf.phases).2.1).1 e he

/-- When a component is about to be deleted, no link has it as an end. -/
theorem Stage.unlinked (h : Stage S D full (.del (key x) :: rest) m) (hf : Schedule S D full)
    (hm : Mergeable S D) (hx : Destroyed S D x) (hk : x.kind ≠ .links) : m.Unlinked x.id := by
  intro id link hlink
  have hfind : m.find .links id = some (.link ⟨link.config, link.id⟩) := by
    simp [Manager.find, hlink]
  obtain ⟨hcontent, -⟩ := h.has_iff.mp hfind
  have hdel : .del (key (.link ⟨link.config, link.id⟩ : Item δ)) ∉ Edit.del (key x) :: rest := by
    intro hmem
    have hle := h.phase_le hf hmem
    simp [phase_del, key, hk] at hle
  obtain ⟨done, rfl⟩ := h.suffix
  obtain ⟨hold, hnew, hpost⟩ := hf.left_alone hcontent hdel
  rw [hf.post_iff] at hpost
  exact hm.untouched hx hk hold hnew fun hr => hpost ⟨hnew, .inr hr⟩

/-- When a link is about to be posted, its ends are registered. -/
theorem Stage.ends (h : Stage S D full (.post (.link l) :: rest) m) (hf : Schedule S D full)
    {id : String} (hid : Ends l id) : (m.process.netRepository.get id).isSome := by
  refine (h.registered l (by simp) id hid).resolve_right ?_
  rintro ⟨x, hx, hk, -⟩
  have hle := h.phase_le hf hx
  simp [phase_post, hk] at hle

/-- When an item is about to be posted, its id is free. -/
theorem Stage.free (h : Stage S D full (.post x :: rest) m) (hf : Schedule S D full) :
    m.find x.kind x.id = none := by
  by_contra hsome
  obtain ⟨y, hy⟩ := Option.ne_none_iff_exists'.mp hsome
  obtain ⟨hcontent, hkey⟩ := h.has_iff.mp hy
  obtain ⟨done, rfl⟩ := h.suffix
  exact hf.key_ne hcontent hkey

theorem Stage.ready (h : Stage S D full (req :: rest) m) (hf : Schedule S D full)
    (hm : Mergeable S D) (hplain : ∀ x, Created S D x → x.kind ≠ .links → PlainKey x.id)
    (hD : D.WellFormed) : m.Ready req := by
  have hmem : req ∈ full := by
    obtain ⟨done, rfl⟩ := h.suffix
    simp
  cases req with
  | del k =>
    obtain ⟨x, hx, rfl⟩ := hf.del_iff.mp hmem
    have hthere : m.find x.kind x.id = some x :=
      (h.find_iff x).mpr (.inl ⟨hx.1, List.mem_cons_self⟩)
    exact ⟨by simp [hthere], h.unlinked hf hm hx⟩
  | post x =>
    have hx := hf.post_iff.mp hmem
    cases x with
    | plugin c => exact ⟨hplain _ hx (by simp), h.free hf, hD.known c hx.1⟩
    | hardware c => exact ⟨hplain _ hx (by simp), h.free hf⟩
    | link l => exact ⟨h.free hf, h.ends hf (.inl rfl), h.ends hf (.inr rfl)⟩

/-- A component that goes and is an end of a link to come is replaced. -/
theorem Schedule.replaced (hf : Schedule S D full) (hS : S.Distinct) (hD : D.WellFormed)
    {done : List (Request δ)} {k : Kind} {id : String} (hfull : full = done ++ .del (k, id) :: rest)
    (hk : k ≠ .links) (hl : .post (.link l) ∈ rest) (hid : Ends l id) :
    ∃ x, .post x ∈ rest ∧ x.kind ≠ .links ∧ x.id = id := by
  obtain ⟨y, hy, hkey⟩ := hf.del_iff.mp (by simp [hfull] : .del (k, id) ∈ full)
  obtain ⟨rfl, rfl⟩ := Prod.mk.inj hkey
  have hnew : D.Has (.link l) := (hf.post_iff.mp (by simp [hfull, hl])).1
  obtain ⟨x, hx, hxk, hxid⟩ : D.Component y.id := by
    rcases hid with hid | hid
    · exact hid ▸ (hD.joins l hnew).1
    · exact hid ▸ (hD.joins l hnew).2
  have hcreated : Created S D x := by
    by_contra hnot
    have hold : S.Has x := by
      by_contra hno
      exact hnot ⟨hx, .inl hno⟩
    obtain rfl := hS x y hold hy.1 hxk hk hxid
    exact hnot ⟨hx, hy.2.imp_left (absurd hx)⟩
  refine ⟨x, ?_, hxk, hxid⟩
  have hpost := hf.post_iff.mpr hcreated
  have hphases := hf.phases
  rw [hfull] at hpost hphases
  rcases List.mem_append.mp hpost with hdone | hrest
  · have hle := (List.pairwise_append.mp hphases).2.2 _ hdone _ List.mem_cons_self
    simp [phase_post, phase_del, hxk, hk] at hle
  · simpa using hrest

/-- A request that succeeds leaves the ends of the links to come registered, or to be created. -/
theorem Stage.registered_next (h : Stage S D full (req :: rest) m) (hf : Schedule S D full)
    (hS : S.Distinct) (hD : D.WellFormed) (hh : m.handle req = .ok m') :
    ∀ l, .post (.link l) ∈ rest → ∀ id, Ends l id →
      (m'.process.netRepository.get id).isSome ∨
        ∃ x, .post x ∈ rest ∧ x.kind ≠ .links ∧ x.id = id := by
  intro l hl id hid
  rcases h.registered l (List.mem_cons_of_mem _ hl) id hid with hthere | ⟨x, hx, hk, hxid⟩
  · by_cases hdel : ∃ k, req = .del (k, id) ∧ k ≠ .links
    · obtain ⟨k, rfl, hk⟩ := hdel
      obtain ⟨done, hfull⟩ := h.suffix
      exact .inr (hf.replaced hS hD hfull hk hl hid)
    · refine .inl (h.kept.registered_of_handle hh hthere fun k hreq => ?_)
      by_contra hk
      exact hdel ⟨k, hreq, hk⟩
  · rcases List.mem_cons.mp hx with rfl | hx
    · exact .inl (hxid ▸ Manager.registered_of_post hh hk)
    · exact .inr ⟨x, hx, hk, hxid⟩

theorem Stage.next (h : Stage S D full (req :: rest) m) (hf : Schedule S D full)
    (hS : S.Distinct) (hD : D.WellFormed) (hn : req.Named) (hh : m.handle req = .ok m') :
    Stage S D full rest m' := by
  have he := Manager.effect_of_named hh hn
  have hregistered := h.registered_next hf hS hD hh
  obtain ⟨done, rfl⟩ := h.suffix
  refine ⟨h.kept.handle hh, ⟨done ++ [req], by simp⟩, fun x => ?_, hregistered⟩
  rw [he.after]
  cases req with
  | del k =>
    rw [hf.content_del, ← h.find_iff x]
    by_cases hk : key x = k
    · simp [← hk, key]
    · have hne : ¬(x.kind = k.1 ∧ x.id = k.2) := fun hc => hk (Prod.ext hc.1 hc.2)
      simp [Request.kind, Request.id, hne, hk]
  | post y =>
    rw [hf.content_post, ← h.find_iff x]
    by_cases hk : key x = key y
    · have hnot : ¬m.find x.kind x.id = some x :=
        fun hx => hf.key_ne ((h.find_iff x).mp hx) hk
      have hreq : x.kind = Request.kind (.post y) ∧ x.id = Request.id (.post y) :=
        Prod.mk.inj hk
      rw [if_pos hreq]
      constructor
      · intro he
        exact .inl (Option.some.inj he).symm
      · intro he
        rcases he with rfl | hx
        · rfl
        · contradiction
    · have hne : ¬(x.kind = y.kind ∧ x.id = y.id) := fun hc => hk (Prod.ext hc.1 hc.2)
      have hxy : x ≠ y := fun he => hk (he ▸ rfl)
      simp [hne, hxy]

variable [DecidableEq δ]

def Converges (m : Manager δ) (D : Design δ) : Prop :=
  ∃ m', apply (doMerge (data m) D) m = .ok m' ∧ ∀ x, (data m').Has x ↔ D.Has x

theorem exists_apply (hkept : m.Kept) (hdistinct : m.Distinct) (hD : D.WellFormed)
    (hm : Savable m D) : ∃ m', apply (doMerge (data m) D) m = .ok m' ∧ m'.Kept ∧
      ∀ x, (data m').Has x ↔ D.Has x := by
  have hS := data_keyed hkept.toKeyed
  have hf := hm.mergeable.schedule (data_nodup_links hkept.toKeyed) hS
    (keyed_of_mergeable hm.mergeable hD.distinct)
  have hold := data_distinct hkept.toKeyed hdistinct
  have hnamed : ∀ req ∈ (applyMap (doMerge (data m) D)).values, req.Named := by
    intro req hmem
    cases req with
    | del k => trivial
    | post x => exact hD.named_of_has (hf.post_iff.mp hmem).1
  have hstart : Stage (data m) D (applyMap (doMerge (data m) D)).values
      (applyMap (doMerge (data m) D)).values m := by
    refine ⟨hkept, ⟨[], rfl⟩, fun x => ?_, fun l hl id hid => ?_⟩
    · rw [hf.content_self]
      exact (data_has_iff hkept.toKeyed).symm
    · refine (hm.registered l (hf.post_iff.mp hl) id hid).imp_right ?_
      rintro ⟨x, hx, hk, hxid⟩
      exact ⟨x, hf.post_iff.mpr hx, hk, hxid⟩
  obtain ⟨m', hrun, hend⟩ := Checked.exists_foldlM (f := Manager.handle)
    (I := fun rest m' => Stage (data m) D (applyMap (doMerge (data m) D)).values rest m') (by
      intro req rest u h
      have hmem : req ∈ (applyMap (doMerge (data m) D)).values := by
        obtain ⟨done, hdone⟩ := h.suffix
        rw [hdone]
        simp
      obtain ⟨u', hu⟩ := Manager.exists_handle (hnamed req hmem)
        (h.ready hf hm.mergeable hm.plain hD)
      exact ⟨u', hu, h.next hf hold hD (hnamed req hmem) hu⟩) hstart
  refine ⟨m', hrun, hend.kept, fun x => ?_⟩
  rw [data_has_iff hend.kept.toKeyed, hend.find_iff, content_nil]
  rfl

/-! ## Designs that converge are savable -/

theorem named_of_values (hk : m.Keyed) (hD : D.WellFormed) {e : Request δ}
    (he : e ∈ (applyMap (doMerge (data m) D)).values) : e.Named := by
  cases e with
  | del => trivial
  | post x =>
    have hmem := (mem_requests_of_values he).1
    exact hD.named_of_has ((post_mem_iff (data_nodup_links hk)).mp hmem).1

/-- A save that succeeds destroys the links of what it destroys. -/
theorem destroyed_of_end (hkept : m.Kept) (hdistinct : m.Distinct) (hD : D.WellFormed)
    (hrun : apply (doMerge (data m) D) m = .ok m') (hl : (data m).Has (.link l))
    (hx : Destroyed (data m) D x) (hk : x.kind ≠ .links)
    (hend : l.sourceComponent = x.id ∨ l.destinationComponent = x.id) :
    .del (.links, l.id) ∈ (applyMap (doMerge (data m) D)).values := by
  have hlinks := data_nodup_links hkept.toKeyed
  have hget := get_component hlinks
    (fun y hy hyk hid => data_distinct hkept.toKeyed hdistinct y x hy.1 hx.1 hyk hk hid) hx hk
  refine Manager.del_link_mem (fun e he => named_of_values hkept.toKeyed hD he) hrun
    ((data_has_iff hkept.toKeyed).mp hl) hk (Dictionary.mem_values_iff.mpr ⟨_, hget⟩) hend

/-- A link and a component that are both destroyed have different ids. -/
theorem link_id_ne_destroyed (hkept : m.Kept) (hdistinct : m.Distinct) (hD : D.WellFormed)
    (hrun : apply (doMerge (data m) D) m = .ok m') (hend : ∀ x, (data m').Has x ↔ D.Has x)
    (hl : Destroyed (data m) D (.link l)) (hx : Destroyed (data m) D x) (hk : x.kind ≠ .links) :
    l.id ≠ x.id := by
  intro hid
  have hnamed := fun e he => named_of_values (e := e) hkept.toKeyed hD he
  have hget := get_component (data_nodup_links hkept.toKeyed)
    (fun y hy hyk hid => data_distinct hkept.toKeyed hdistinct y x hy.1 hx.1 hyk hk hid) hx hk
  have hdel : .del (.links, l.id) ∉ (applyMap (doMerge (data m) D)).values := by
    intro hmem
    have hreplaced := (mem_requests_of_values hmem).2
    have hfield : field (.del (.links, l.id) : Request δ) = field (deletion x) :=
      field_del_eq_iff.mpr hid
    rw [hfield, hget] at hreplaced
    exact hk (Prod.mk.inj (Edit.del.inj (Option.some.inj hreplaced))).1
  have hfound := Manager.find_kept hnamed hrun ((data_has_iff hkept.toKeyed).mp hl.1) hdel
  have hnew : D.Has (.link l) :=
    (hend _).mp ((data_has_iff (hkept.toKeyed.run hrun)).mpr hfound)
  rcases hl.2.resolve_left (not_not_intro hnew) with ⟨c, hc, hgone, hce⟩ | ⟨c, hc, hgone, hce⟩
  · exact hdel (destroyed_of_end hkept hdistinct hD hrun hl.1 (x := .hardware c) ⟨hc, .inl hgone⟩ (by simp)
      (.inl hce.symm))
  · exact hdel (destroyed_of_end hkept hdistinct hD hrun hl.1 (x := .plugin c) ⟨hc, .inl hgone⟩ (by simp)
      (.inr hce.symm))

/-- A link and a component that are both created have different ids. -/
theorem link_id_ne_created (hkept : m.Kept) (hD : D.WellFormed)
    (hrun : apply (doMerge (data m) D) m = .ok m') (hend : ∀ x, (data m').Has x ↔ D.Has x)
    (hunique : ∀ l' ∈ D.links, l'.id = l.id → l' = l)
    (hl : Created (data m) D (.link l)) (hx : Created (data m) D x) (hk : x.kind ≠ .links) :
    l.id ≠ x.id := by
  intro hid
  have hnamed := fun e he => named_of_values (e := e) hkept.toKeyed hD he
  have hget := get_link (data_nodup_links hkept.toKeyed) hunique hl
  have hpost : .post x ∉ (applyMap (doMerge (data m) D)).values := by
    intro hmem
    have hreplaced := (mem_requests_of_values hmem).2
    have hfield : field (.post (.link l)) = field (.post x) := field_post_eq_iff.mpr hid
    rw [← hfield, hget] at hreplaced
    obtain rfl := Edit.post.inj (Option.some.inj hreplaced)
    contradiction
  have hfound := (data_has_iff (hkept.toKeyed.run hrun)).mp ((hend x).mpr hx.1)
  have hold : (data m).Has x :=
    (data_has_iff hkept.toKeyed).mpr ((Manager.find_origin hnamed hrun hfound).resolve_right hpost)
  cases x with
  | plugin => exact hx.2.elim (fun h => h hold) (fun h => h)
  | hardware => exact hx.2.elim (fun h => h hold) (fun h => h)
  | link => contradiction

theorem mergeable_of_converges (hkept : m.Kept) (hdistinct : m.Distinct) (hD : D.WellFormed) (h : Converges m D) :
    Mergeable (data m) D := by
  obtain ⟨m', hrun, hend⟩ := h
  have hS := data_keyed hkept.toKeyed
  have hnamed := fun e he => named_of_values (e := e) hkept.toKeyed hD he
  have hD' := data_keyed (hkept.toKeyed.run hrun)
  have hunique : ∀ l ∈ D.links, ∀ l' ∈ D.links, l.id = l'.id → l = l' := fun l hl l' hl' hid =>
    hD'.link_eq ((hend (.link l)).mpr hl) ((hend (.link l')).mpr hl') hid
  refine ⟨fun l hold hnew hends => ?_, hunique, ?_, ?_⟩
  · have hdel : .del (key (.link l : Item δ)) ∈ (applyMap (doMerge (data m) D)).values := by
      rcases hends with ⟨c, hc, hgone, hce⟩ | ⟨c, hc, hgone, hce⟩
      · exact destroyed_of_end hkept hdistinct hD hrun hold (x := .plugin c) ⟨hc, .inl hgone⟩ (by simp)
          (.inl hce.symm)
      · exact destroyed_of_end hkept hdistinct hD hrun hold (x := .hardware c) ⟨hc, .inl hgone⟩ (by simp)
          (.inr hce.symm)
    obtain ⟨y, hy, hkey⟩ :=
      (del_mem_iff (data_nodup_links hkept.toKeyed)).mp (mem_requests_of_values hdel).1
    obtain rfl := hS y (.link l) hy.1 hold hkey
    exact hy.2.resolve_left (not_not_intro hnew)
  · exact eq_of_id (fun l l' hl hl' => hS.link_eq hl.1 hl'.1)
      (fun x y hx hy => data_distinct hkept.toKeyed hdistinct x y hx.1 hy.1)
      (fun l x hl hx => link_id_ne_destroyed hkept hdistinct hD hrun hend hl hx)
  · exact eq_of_id (fun l l' hl hl' => hunique l hl.1 l' hl'.1)
      (fun x y hx hy => hD.distinct x y hx.1 hy.1)
      (fun l x hl hx => link_id_ne_created hkept hD hrun hend
        (fun l' hl' => hunique l' hl' l hl.1) hl hx)

theorem savable_of_converges (hkept : m.Kept) (hdistinct : m.Distinct) (hD : D.WellFormed)
    (h : Converges m D) : Savable m D := by
  have hm := mergeable_of_converges hkept hdistinct hD h
  obtain ⟨m', hrun, -⟩ := h
  have hf := hm.schedule (data_nodup_links hkept.toKeyed) (data_keyed hkept.toKeyed)
    (keyed_of_mergeable hm hD.distinct)
  refine ⟨hm, fun l hl id hid => ?_, fun x hx hk => ?_⟩
  · obtain ⟨before, after, u, v, hes, hu, hv⟩ := Manager.exists_state_of_mem hrun (hf.post_iff.mpr hl)
    have hthere : (u.process.netRepository.get id).isSome := by
      obtain ⟨⟨p, link⟩, hc, -⟩ := Checked.bind_eq_ok_iff.mp hv
      obtain ⟨s, d, hs, hd, -⟩ := create_eq_ok hc
      have hfound : ∀ {i r}, Links.component u.process i = .ok r →
          (u.process.netRepository.get i).isSome := by
        intro i r hi
        cases hget : u.process.netRepository.get i with
        | none => simp [Links.component, hget] at hi
        | some c => rfl
      rcases hid with rfl | rfl
      · exact hfound hs
      · exact hfound hd
    refine (Manager.registered_run hu hthere).imp_right ?_
    rintro ⟨x, hx, hk, hxid⟩
    exact ⟨x, hf.post_iff.mp (by simp [hes, hx]), hk, hxid⟩
  · obtain ⟨_, _, u, v, -, -, hv⟩ := Manager.exists_state_of_mem hrun (hf.post_iff.mpr hx)
    exact Manager.plain_of_post hv hk

/-- A save succeeds and leaves the new design exactly when it is savable. -/
theorem converges_iff (hkept : m.Kept) (hdistinct : m.Distinct) (hD : D.WellFormed) :
    Converges m D ↔ Savable m D := by
  refine ⟨savable_of_converges hkept hdistinct hD, fun hm => ?_⟩
  obtain ⟨m', hrun, -, hend⟩ := exists_apply hkept hdistinct hD hm
  exact ⟨m', hrun, hend⟩

/-! ## Two lights with a link -/

/-- Light `a` with a description, linked to light `b`. -/
def lights (a b : String) : Design String :=
  { plugins := [⟨"a", "light", a⟩, ⟨"b", "light", b⟩]
    hardware := []
    links := [⟨⟨"a", "output", "b", "input"⟩, "a|output|b|input"⟩] }

theorem lights_has_iff {a b : String} {x : Item String} : (lights a b).Has x ↔
    x = .plugin ⟨"a", "light", a⟩ ∨ x = .plugin ⟨"b", "light", b⟩ ∨
      x = .link ⟨⟨"a", "output", "b", "input"⟩, "a|output|b|input"⟩ := by
  cases x <;> simp [lights, Design.Has]

theorem lights_wellFormed (a b : String) : (lights a b).WellFormed where
  ids := by simp [lights]
  joins := by
    intro l hl
    obtain rfl := List.mem_singleton.mp hl
    exact ⟨⟨.plugin ⟨"a", "light", a⟩, by simp [lights_has_iff], by simp, rfl⟩,
      ⟨.plugin ⟨"b", "light", b⟩, by simp [lights_has_iff], by simp, rfl⟩⟩
  named := by
    intro l hl
    obtain rfl := List.mem_singleton.mp hl
    decide
  known := by
    intro c hc
    simp only [lights, List.mem_cons, List.not_mem_nil, or_false] at hc
    rcases hc with rfl | rfl <;> rfl

omit [DecidableEq δ] in
theorem exists_post (hs : m.Sound) (hh : ∀ id, m.find .hardware id = none) (hn : x.Named)
    (hx : x.kind ≠ .hardware) (hr : m.Ready (.post x)) : ∃ m', m'.Sound ∧
      (∀ id, m'.find .hardware id = none) ∧ m.Effect (.post x) m' := by
  have hnamed : Request.Named (.post x) := hn
  obtain ⟨m', h⟩ := Manager.exists_handle hnamed hr
  have he := Manager.effect_of_named h hnamed
  have hnone : ∀ id, m'.find .hardware id = none := by
    intro id
    rw [he.after, if_neg fun hc => hx hc.1.symm]
    exact hh id
  exact ⟨m', hs.handle h fun id _ => hnone id, hnone, he⟩

/-- A core that runs the two lights. -/
theorem exists_lights (a b : String) :
    ∃ m : Manager String, m.Sound ∧ ∀ x, (data m).Has x ↔ (lights a b).Has x := by
  obtain ⟨m₁, hs₁, hh₁, he₁⟩ := exists_post (x := .plugin ⟨"a", "light", a⟩) Manager.sound_empty
    (fun _ => Manager.find_empty) trivial (by simp)
    ⟨show PlainKey "a" by decide, Manager.find_empty, rfl⟩
  have hfind₁ : ∀ k id, m₁.find k id = if k = .plugins ∧ id = "a" then
      some (.plugin ⟨"a", "light", a⟩) else none := by
    intro k id
    rw [he₁.after, Manager.find_empty]
    rfl
  obtain ⟨m₂, hs₂, hh₂, he₂⟩ := exists_post (x := .plugin ⟨"b", "light", b⟩) hs₁ hh₁ trivial (by simp)
    ⟨show PlainKey "b" by decide, by simp [hfind₁], rfl⟩
  have hfind₂ : ∀ k id, m₂.find k id = if k = .plugins ∧ id = "b" then
      some (.plugin ⟨"b", "light", b⟩) else m₁.find k id := he₂.after
  have hnamed : Item.Named (.link ⟨⟨"a", "output", "b", "input"⟩, "a|output|b|input"⟩ : Item String) := by
    simp only [Item.Named]
    decide
  have hready : m₂.Ready (.post (.link ⟨⟨"a", "output", "b", "input"⟩, "a|output|b|input"⟩)) := by
    refine ⟨by simp [hfind₂, hfind₁], hs₂.registered _ (.inl ?_), hs₂.registered _ (.inl ?_)⟩ <;>
      simp [hfind₂, hfind₁]
  obtain ⟨m, hs, -, he⟩ := exists_post hs₂ hh₂ hnamed (by simp) hready
  refine ⟨m, hs, fun x => ?_⟩
  rw [data_has_iff hs.toKeyed, he.after, hfind₂, hfind₁, lights_has_iff]
  cases x <;> grind [Item.kind, Item.id, Request.kind, Request.id, Request.result]

/-- When the second light changes, the link to it is destroyed and made again. -/
theorem converges_second_light : ∃ m : Manager String, m.Sound ∧
    (∀ x, (data m).Has x ↔ (lights "kitchen" "hall").Has x) ∧
    Converges m (lights "kitchen" "stairs") := by
  obtain ⟨m, hs, hm⟩ := exists_lights "kitchen" "hall"
  have hlink : Recreated (data m) (lights "kitchen" "stairs")
      (.link ⟨⟨"a", "output", "b", "input"⟩, "a|output|b|input"⟩) :=
    .inr ⟨⟨"b", "light", "hall"⟩, (hm (.plugin ⟨"b", "light", "hall"⟩)).mpr
      (by simp [lights_has_iff]), by simp [lights], rfl⟩
  refine ⟨m, hs, hm, (converges_iff hs.toKept hs.distinct (lights_wellFormed _ _)).mpr
    ⟨⟨fun l _ hl _ => ?_, fun l hl l' hl' _ => ?_, fun x y hx hy hid => ?_,
      fun x y hx hy hid => ?_⟩, fun l hl id hid => .inl (hs.registered id ?_), fun x hx _ => ?_⟩⟩
  · rw [List.mem_singleton.mp hl]
    exact hlink
  · rw [List.mem_singleton.mp hl, List.mem_singleton.mp hl']
  · have hx := lights_has_iff.mp ((hm x).mp hx.1)
    have hy := lights_has_iff.mp ((hm y).mp hy.1)
    rcases hx with rfl | rfl | rfl <;> rcases hy with rfl | rfl | rfl <;> simp at hid ⊢
  · have hx := lights_has_iff.mp hx.1
    have hy := lights_has_iff.mp hy.1
    rcases hx with rfl | rfl | rfl <;> rcases hy with rfl | rfl | rfl <;> simp at hid ⊢
  · obtain rfl := List.mem_singleton.mp hl.1
    have hthere : ∀ c : PluginConfig String, (lights "kitchen" "hall").Has (.plugin c) →
        m.Component c.id := by
      intro c hc
      exact .inl (Option.isSome_of_mem ((data_has_iff hs.toKeyed).mp ((hm (.plugin c)).mpr hc)))
    rcases hid with rfl | rfl
    · exact hthere ⟨"a", "light", "kitchen"⟩ (by simp [lights_has_iff])
    · exact hthere ⟨"b", "light", "hall"⟩ (by simp [lights_has_iff])
  · rcases lights_has_iff.mp hx.1 with rfl | rfl | rfl
    · exact show PlainKey "a" by decide
    · exact show PlainKey "b" by decide
    · contradiction

/-- When the first light changes, the link from it is forgotten. -/
theorem first_light_stuck : ∃ m : Manager String, m.Sound ∧
    (∀ x, (data m).Has x ↔ (lights "kitchen" "hall").Has x) ∧
    (lights "kitchen" "hall").WellFormed ∧ (lights "cellar" "hall").WellFormed ∧
    ¬Converges m (lights "cellar" "hall") := by
  obtain ⟨m, hs, hm⟩ := exists_lights "kitchen" "hall"
  refine ⟨m, hs, hm, lights_wellFormed _ _, lights_wellFormed _ _, fun h => ?_⟩
  have hmerge := mergeable_of_converges hs.toKept hs.distinct (lights_wellFormed _ _) h
  have hlink := hmerge.ends ⟨⟨"a", "output", "b", "input"⟩, "a|output|b|input"⟩
    ((hm (.link _)).mpr (by simp [lights_has_iff])) (by simp [lights])
    (.inl ⟨⟨"a", "light", "kitchen"⟩, (hm (.plugin _)).mpr (by simp [lights_has_iff]),
      by simp [lights], rfl⟩)
  rcases hlink with ⟨c, hc, _⟩ | ⟨c, hc, hgone, hid⟩
  · have := (hm (.hardware c)).mp hc
    simp [lights_has_iff] at this
  · have := (hm (.plugin c)).mp hc
    simp only [lights_has_iff, Item.plugin.injEq, reduceCtorEq, or_false] at this
    rcases this with rfl | rfl
    · simp at hid
    · simp [lights] at hgone

end MyLifeHome.Designer
