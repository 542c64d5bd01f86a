import MyLifeHome.Designer.Merge

/-!
# The requests of a save

The map that `apply` makes, read as the list of requests that were written into it. Where no
request replaces another one, the requests are a plan that makes the new design of the old one.
-/
namespace MyLifeHome.Designer

open Reconcile

variable {δ : Type} {S D : Design δ} {M : MergedData δ} {x y : Item δ} {req : Request δ}

/-- The field of the map that a request is written to. -/
def field : Request δ → String
  | .del (_, id) => "destroy:" ++ id
  | .post item => "create:" ++ item.id

def key (x : Item δ) : Kind × String := (x.kind, x.id)

def deletion (x : Item δ) : Request δ := .del (key x)

/-- The requests in the order in which they are written. -/
def requests (M : MergedData δ) : List (Request δ) :=
  M.destroy.links.map (fun l => deletion (.link l)) ++
    M.destroy.plugins.map (fun c => deletion (.plugin c)) ++
    M.destroy.hardware.map (fun c => deletion (.hardware c)) ++
    M.create.plugins.map (fun c => .post (.plugin c)) ++
    M.create.hardware.map (fun c => .post (.hardware c)) ++
    M.create.links.map (fun l => .post (.link l))

theorem applyMap_eq : applyMap M = Dictionary.setAll .empty field (requests M) := by
  simp only [applyMap, requests, destroyArray, createArray, Dictionary.setAll, List.foldl_append,
    List.foldl_map]
  rfl

theorem mem_requests_del {k : Kind × String} :
    .del k ∈ requests M ↔ ∃ x, M.destroy.Has x ∧ key x = k := by
  constructor
  · intro h
    simp only [requests, deletion, List.mem_append, List.mem_map, reduceCtorEq, and_false, exists_false,
      or_false, Edit.del.injEq] at h
    rcases h with (⟨l, hl, rfl⟩ | ⟨c, hc, rfl⟩) | ⟨c, hc, rfl⟩
    · exact ⟨.link l, hl, rfl⟩
    · exact ⟨.plugin c, hc, rfl⟩
    · exact ⟨.hardware c, hc, rfl⟩
  · intro ⟨x, hx, hk⟩
    subst hk
    cases x with
    | plugin c => simpa [requests, deletion, key] using ⟨c, hx, rfl⟩
    | hardware c => simpa [requests, deletion, key] using ⟨c, hx, rfl⟩
    | link l => simpa [requests, deletion, key] using ⟨l, hx, rfl⟩

theorem mem_requests_post : .post x ∈ requests M ↔ M.create.Has x := by
  cases x <;> simp [requests, deletion, Design.Has]

/-- Links go first and come last. -/
def phase : Request δ → ℕ
  | .del (.links, _) => 0
  | .del _ => 1
  | .post (.link _) => 3
  | .post _ => 2

theorem phase_del {k : Kind × String} :
    phase (.del k : Request δ) = if k.1 = .links then 0 else 1 := by
  obtain ⟨kind, id⟩ := k
  cases kind <;> rfl

theorem phase_post : phase (.post x) = if x.kind = .links then 3 else 2 := by
  cases x <;> rfl

theorem requests_ordered : (requests M).Pairwise fun e f => phase e ≤ phase f := by
  have hall : ∀ {α : Type} {as : List α} {f : α → Request δ} {n : ℕ}, (∀ a, phase (f a) = n) →
      (as.map f).Pairwise fun e f => phase e ≤ phase f := by
    intro α as f n hf
    rw [List.pairwise_map]
    exact List.pairwise_of_forall fun a b => by rw [hf, hf]
  simp only [requests, List.pairwise_append, List.mem_append, List.mem_map]
  refine ⟨⟨⟨⟨⟨hall fun _ => rfl, hall fun _ => rfl, ?_⟩, hall fun _ => rfl, ?_⟩,
    hall fun _ => rfl, ?_⟩, hall fun _ => rfl, ?_⟩, hall fun _ => rfl, ?_⟩
  all_goals
    intro a ha b hb
    grind [phase_del, phase_post, deletion, key, Item.kind]

/-! ## Fields -/

variable {k k' : Kind × String}

theorem mem_requests_of_values {e : Request δ} (he : e ∈ (applyMap M).values) :
    e ∈ requests M ∧ (applyMap M).get (field e) = some e := by
  obtain ⟨k, hk⟩ := Dictionary.mem_values_iff.mp he
  have hget := hk
  rw [applyMap_eq] at hk
  rcases Dictionary.mem_of_get_setAll hk with hnone | ⟨hmem, rfl⟩
  · simp at hnone
  · exact ⟨hmem, hget⟩

theorem field_del_eq_iff : field (.del k : Request δ) = field (.del k' : Request δ) ↔ k.2 = k'.2 := by
  simp [field]

theorem field_post_eq_iff : field (.post x) = field (.post y) ↔ x.id = y.id := by
  simp [field]

theorem field_del_ne_post : field (.del k : Request δ) ≠ field (.post x) := by
  intro h
  have hchars := congrArg String.toList h
  simp only [field, String.toList_append] at hchars
  exact absurd (List.cons.inj hchars).1 (by decide)

/-! ## Designs that can be saved -/

/-- The items of the old design that a save destroys. -/
def Destroyed (S D : Design δ) (x : Item δ) : Prop := S.Has x ∧ (¬D.Has x ∨ Recreated S D x)

/-- The items of the new design that a save creates. -/
def Created (S D : Design δ) (x : Item δ) : Prop := D.Has x ∧ (¬S.Has x ∨ Recreated S D x)

/-- What the difference of two designs takes for granted. -/
structure Mergeable (S D : Design δ) : Prop where
  /-- A link that stays is made again when it leaves a plugin or enters a hardware that goes. -/
  ends : ∀ l ∈ S.links, l ∈ D.links →
    (∃ c ∈ S.plugins, c ∉ D.plugins ∧ c.id = l.sourceComponent) ∨
      (∃ c ∈ S.hardware, c ∉ D.hardware ∧ c.id = l.destinationComponent) →
    Recreated S D (.link l)
  links : ∀ l ∈ D.links, ∀ l' ∈ D.links, l.id = l'.id → l = l'
  destroyed : ∀ x y, Destroyed S D x → Destroyed S D y → x.id = y.id → x = y
  created : ∀ x y, Created S D x → Created S D y → x.id = y.id → x = y

/-- The requests of a save: what is deleted, what is posted, and in which order. -/
structure Schedule (S D : Design δ) (edits : List (Request δ)) : Prop
    extends Plan key {x | S.Has x} {x | D.Has x} edits where
  del_iff : ∀ {k}, .del k ∈ edits ↔ ∃ x, Destroyed S D x ∧ key x = k
  post_iff : ∀ {x}, .post x ∈ edits ↔ Created S D x
  phases : edits.Pairwise fun e f => phase e ≤ phase f

/-- No two items of a kind have the same id. -/
def Design.Keyed (d : Design δ) : Prop := ∀ x y, d.Has x → d.Has y → key x = key y → x = y

section
variable [DecidableEq δ] (hlinks : (S.links.map LinkItem.id).Nodup)
include hlinks

theorem del_mem_iff : .del k ∈ requests (doMerge S D) ↔ ∃ x, Destroyed S D x ∧ key x = k := by
  simp only [mem_requests_del, destroy_has_iff hlinks, Destroyed]

theorem post_mem_iff : .post x ∈ requests (doMerge S D) ↔ Created S D x := by
  rw [mem_requests_post, create_has_iff hlinks, Created]

/-- No request replaces another one. -/
theorem Mergeable.field_injective (hm : Mergeable S D) :
    ∀ e ∈ requests (doMerge S D), ∀ f ∈ requests (doMerge S D), field e = field f → e = f := by
  intro e he f hf heq
  cases e with
  | del k =>
    cases f with
    | del k' =>
      obtain ⟨x, hx, rfl⟩ := (del_mem_iff hlinks).mp he
      obtain ⟨y, hy, rfl⟩ := (del_mem_iff hlinks).mp hf
      rw [hm.destroyed x y hx hy (field_del_eq_iff.mp heq)]
    | post y => exact absurd heq field_del_ne_post
  | post x =>
    cases f with
    | del k' => exact absurd heq.symm field_del_ne_post
    | post y =>
      have hx := (post_mem_iff hlinks).mp he
      have hy := (post_mem_iff hlinks).mp hf
      rw [hm.created x y hx hy (field_post_eq_iff.mp heq)]

/-- The requests of a save are a plan that goes phase by phase. -/
theorem Mergeable.schedule (hm : Mergeable S D) (hS : S.Keyed) (hD : D.Keyed) :
    Schedule S D (applyMap (doMerge S D)).values := by
  have hmem : ∀ e, e ∈ (applyMap (doMerge S D)).values ↔ e ∈ requests (doMerge S D) := by
    intro e
    rw [applyMap_eq]
    exact Dictionary.mem_values_setAll (hm.field_injective hlinks)
  have hdel : ∀ k, .del k ∈ (applyMap (doMerge S D)).values ↔
      ∃ x, Destroyed S D x ∧ key x = k := fun k => (hmem _).trans (del_mem_iff hlinks)
  have hdestroyed : ∀ x, S.Has x → (.del (key x) ∈ (applyMap (doMerge S D)).values ↔
      Destroyed S D x) := by
    intro x hx
    rw [hdel]
    refine ⟨fun ⟨y, hy, hk⟩ => ?_, fun h => ⟨x, h, rfl⟩⟩
    rwa [hS x y hx hy.1 hk.symm]
  have hpost : ∀ x, .post x ∈ (applyMap (doMerge S D)).values ↔ Created S D x :=
    fun x => (hmem _).trans (post_mem_iff hlinks)
  have hphases : (applyMap (doMerge S D)).values.Pairwise fun e f => phase e ≤ phase f := by
    rw [applyMap_eq]
    exact requests_ordered.sublist
      (Dictionary.values_setAll_sublist (hm.field_injective hlinks))
  refine ⟨⟨?_, ?_, ?_, ?_, ?_, ?_, ?_⟩, hdel _, hpost _, hphases⟩
  · intro x hx
    exact ((hpost x).mp hx).1
  · intro x hx hnew
    exact (hdestroyed x hx).mpr ⟨hx, .inl hnew⟩
  · intro x hx hold
    exact (hpost x).mpr ⟨hx, .inl hold⟩
  · intro x hold hnew
    rw [hdestroyed x hold, hpost x]
    change S.Has x at hold
    change D.Has x at hnew
    simp [Destroyed, Created, hold, hnew]
  · intro x hx y hy hk
    exact hD x y hx hy hk
  · rw [applyMap_eq]
    exact Dictionary.nodup_values_setAll
  · refine hphases.imp fun {e f} hle he => ?_
    cases e with
    | del => contradiction
    | post x =>
      cases f with
      | del k =>
        rw [phase_post, phase_del] at hle
        grind
      | post => trivial

/-- The deletion of a component is not replaced. -/
theorem get_component (hd : ∀ y, Destroyed S D y → y.kind ≠ .links → y.id = x.id → y = x)
    (hx : Destroyed S D x) (hk : x.kind ≠ .links) :
    (applyMap (doMerge S D)).get (field (deletion x)) = some (deletion x) := by
  have hmem := (del_mem_iff hlinks).mpr ⟨x, hx, rfl⟩
  rw [applyMap_eq]
  simp only [requests, List.append_assoc] at hmem ⊢
  rw [Dictionary.setAll_append]
  refine Dictionary.get_setAll_of_mem ?_ fun e he hfield => ?_
  · rcases List.mem_append.mp hmem with hl | hrest
    · obtain ⟨l, _, he⟩ := List.mem_map.mp hl
      obtain ⟨hkind, -⟩ := Prod.mk.inj (Edit.del.inj he)
      exact absurd hkind.symm hk
    · exact hrest
  · have hsame : ∀ y, y.kind ≠ .links → (doMerge S D).destroy.Has y → e = deletion y →
        e = deletion x := by
      intro y hy hdestroy heq
      have hid : y.id = x.id := field_del_eq_iff.mp (heq ▸ hfield)
      rw [heq, hd y ((destroy_has_iff hlinks).mp hdestroy) hy hid]
    have hpost : ∀ y, e ≠ .post y := by
      intro y heq
      exact field_del_ne_post (heq ▸ hfield).symm
    simp only [List.mem_append, List.mem_map] at he
    rcases he with ⟨c, hc, rfl⟩ | ⟨c, hc, rfl⟩ | ⟨c, _, rfl⟩ | ⟨c, _, rfl⟩ | ⟨c, _, rfl⟩
    · exact hsame (.plugin c) (by simp) hc rfl
    · exact hsame (.hardware c) (by simp) hc rfl
    · exact absurd rfl (hpost _)
    · exact absurd rfl (hpost _)
    · exact absurd rfl (hpost _)

/-- The creation of a link is not replaced. -/
theorem get_link {l : LinkItem} (hd : ∀ l' ∈ D.links, l'.id = l.id → l' = l)
    (hl : Created S D (.link l)) :
    (applyMap (doMerge S D)).get (field (.post (.link l) : Request δ)) = some (.post (.link l)) := by
  rw [applyMap_eq, requests, Dictionary.setAll_append]
  refine Dictionary.get_setAll_of_mem ?_ fun e he hfield => ?_
  · exact List.mem_map_of_mem (f := fun l => (.post (.link l) : Request δ))
      ((create_has_iff hlinks).mpr hl)
  · obtain ⟨l', hl', rfl⟩ := List.mem_map.mp he
    have hnew : D.Has (.link l') :=
      ((create_has_iff (x := .link l') hlinks).mp hl').1
    rw [hd l' hnew (field_post_eq_iff.mp hfield)]

end

end MyLifeHome.Designer
