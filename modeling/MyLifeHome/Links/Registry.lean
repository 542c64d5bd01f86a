import MyLifeHome.Core.Wiring

/-!
# The registry of the links

Every link of the registry has a function of its own, registered for two events of its
source: a change of the attribute and `connected`. Creating and destroying links keeps
this, and it decides what a link delivers.
-/
namespace MyLifeHome

open Process

variable {p q : Process} {r : ObjRef} {o : NetObject} {id : String} {link : Link} {h : Nat}

def Listener.handler? : Listener → Option Nat
  | .link handler _ _ _ => some handler
  | _ => none

/-- The function of a link. -/
def Link.listener (link : Link) : Listener :=
  .link link.handler link.source link.destination link.config

/-- What the function of a link does with a value. -/
def Link.execution (link : Link) (value : JsValue) : Effect :=
  .execute link.handler link.source link.destination link.config.destinationAction value

/-- What the function with the number has been registered for. -/
def Process.registrations (p : Process) (r : ObjRef) (h : Nat) : List (Event × Listener) :=
  (p.listeners r).filter fun x => x.2.handler? = some h

/-- The links of the registry and the functions that are registered fit together. -/
structure LinksWired (p : Process) : Prop where
  registered : ∀ {id link}, p.links.get id = some link →
    p.registrations link.source link.handler =
      [(.attributeOf link.config.sourceAttribute, link.listener), (.connected, link.listener)]
  here : ∀ {id link r e l}, p.links.get id = some link → (e, l) ∈ p.listeners r →
    l.handler? = some link.handler → r = link.source
  injective : ∀ {id id' link link'}, p.links.get id = some link → p.links.get id' = some link' →
    link.handler = link'.handler → id = id'
  used : ∀ {r e l h}, (e, l) ∈ p.listeners r → l.handler? = some h → h < p.handlers
  named : ∀ {id link}, p.links.get id = some link → link.handler < p.handlers

theorem linksWired_of_no_links (hp : p.links = .empty)
    (hl : ∀ r e l, (e, l) ∈ p.listeners r → l.handler? = none) : LinksWired p where
  registered hg := by simp [hp] at hg
  here hg := by simp [hp] at hg
  injective hg := by simp [hp] at hg
  named hg := by simp [hp] at hg
  used hm hh := by simp [hl _ _ _ hm] at hh

/-- Only the links, the listeners and the count of the functions matter. -/
theorem LinksWired.congr (hl : LinksWired p) (hlinks : q.links = p.links)
    (hlisten : q.listeners = p.listeners) (hhandlers : q.handlers = p.handlers) :
    LinksWired q := by
  obtain ⟨hreg, hhere, hinj, hused, hnamed⟩ := hl
  constructor <;> simp only [Process.registrations, hlinks, hlisten, hhandlers] <;> assumption

theorem LinksWired.of_sameShape (hl : LinksWired p) (hs : SameShape p q) : LinksWired q :=
  hl.congr hs.links hs.listeners hs.handlers

/-! ## Creating and destroying -/

theorem registrations_on {e : Event} {l : Listener} {s : ObjRef} :
    (p.on s e l).registrations r h =
      p.registrations r h ++ if r = s ∧ l.handler? = some h then [(e, l)] else [] := by
  by_cases hr : r = s
  · subst hr
    by_cases hh : l.handler? = some h <;> simp [Process.registrations, Process.on, hh]
  · simp [Process.registrations, Process.on, hr]

theorem LinksWired.registrations_fresh (hl : LinksWired p) : p.registrations r p.handlers = [] := by
  refine List.filter_eq_nil_iff.mpr fun x hx hh => ?_
  exact absurd (hl.used hx (by simpa using hh)) (lt_irrefl _)

theorem LinksWired.create {config : LinkConfig} (hl : LinksWired p)
    (hc : Links.create p config = .ok (q, link)) : LinksWired q := by
  obtain ⟨s, d, _, _, hnone, rfl, rfl⟩ := create_eq_ok hc
  set id := Links.makeId config
  have hne : ∀ {id' link'}, p.links.get id' = some link' → link'.handler ≠ p.handlers :=
    fun hg => (hl.named hg).ne
  constructor
  · intro id' link' hg
    rw [Dictionary.get_set] at hg
    change ((p.on _ _ _).on _ _ _).registrations _ _ = _
    rw [registrations_on, registrations_on]
    split_ifs at hg with hid
    · obtain rfl := Option.some.inj hg
      rw [hl.registrations_fresh]
      simp [Listener.handler?, Link.listener]
    · have hh := hne hg
      rw [hl.registered hg]
      simp [Listener.handler?, Ne.symm hh]
  · intro id' link' r e l hg hm hh
    rw [Dictionary.get_set] at hg
    simp only [mem_listeners_on, Prod.mk.injEq] at hm
    split_ifs at hg with hid
    · obtain rfl := Option.some.inj hg
      obtain (hm | ⟨rfl, _⟩) | ⟨rfl, _⟩ := hm
      · exact absurd (hl.used hm hh) (lt_irrefl _)
      · rfl
      · rfl
    · obtain (hm | ⟨_, _, rfl⟩) | ⟨_, _, rfl⟩ := hm
      · exact hl.here hg hm hh
      · exact absurd (Option.some.inj hh).symm (hne hg)
      · exact absurd (Option.some.inj hh).symm (hne hg)
  · intro i j l m hi hj hh
    rw [Dictionary.get_set] at hi hj
    split_ifs at hi hj with h1 h2 h2
    · rw [h1, h2]
    · obtain rfl := Option.some.inj hi
      exact absurd hh.symm (hne hj)
    · obtain rfl := Option.some.inj hj
      exact absurd hh (hne hi)
    · exact hl.injective hi hj hh
  · intro r e l h hm hh
    rcases mem_listeners_on.mp hm with hm | ⟨_, hx⟩
    · rcases mem_listeners_on.mp hm with hm | ⟨_, hx⟩
      · exact Nat.lt_succ_of_lt (hl.used hm hh)
      · obtain ⟨rfl, rfl⟩ := Prod.mk.inj hx
        obtain rfl := Option.some.inj hh
        exact Nat.lt_succ_self _
    · obtain ⟨rfl, rfl⟩ := Prod.mk.inj hx
      obtain rfl := Option.some.inj hh
      exact Nat.lt_succ_self _
  · intro i l hg
    rw [Dictionary.get_set] at hg
    split_ifs at hg with hid
    · obtain rfl := Option.some.inj hg
      exact Nat.lt_succ_self _
    · exact Nat.lt_succ_of_lt (hl.named hg)

theorem registrations_destroyLink (hne : link.handler ≠ h) :
    (Links.destroyLink p link).registrations r h = p.registrations r h := by
  by_cases hr : r = link.source
  · subst hr
    have herase : ∀ xs : List (Event × Listener),
        (xs.erase (.attributeOf link.config.sourceAttribute, link.listener)).filter
          (fun x => x.2.handler? = some h) = xs.filter fun x => x.2.handler? = some h := by
      intro xs
      rw [← List.erase_filter]
      exact List.erase_of_not_mem (by simp [Link.listener, Listener.handler?, hne])
    simpa [Process.registrations, Links.destroyLink, removeListener, Link.listener] using
      herase (p.listeners link.source)
  · simp [Process.registrations, Links.destroyLink, removeListener, hr]

theorem LinksWired.destroy (hl : LinksWired p) (id : String) :
    LinksWired (Links.destroy p id).1 := by
  unfold Links.destroy
  cases hg : p.links.get id with
  | none => exact hl
  | some link =>
    have hget : ∀ {j l}, (p.links.erase id).get j = some l → j ≠ id ∧ p.links.get j = some l := by
      intro j l hj
      rw [Dictionary.get_erase] at hj
      split_ifs at hj with h
      exact ⟨h, hj⟩
    constructor
    · intro j l hj
      obtain ⟨hji, hj⟩ := hget hj
      have hne : link.handler ≠ l.handler := fun he => hji (hl.injective hj hg he.symm)
      exact (registrations_destroyLink hne).trans (hl.registered hj)
    · intro j l r e k hj hm
      exact hl.here (hget hj).2 (fewer_removeListener r _ hm)
    · intro i j l m hi hj
      exact hl.injective (hget hi).2 (hget hj).2
    · intro r e l h hm
      exact hl.used (fewer_removeListener r _ hm)
    · intro j l hj
      exact hl.named (hget hj).2

/-! ## What a link delivers -/

def Effect.byHandler (h : Nat) : Effect → Bool
  | .execute handler _ _ _ _ => handler == h
  | _ => false

/-- Of what is delivered, one function delivers what it is registered for. -/
theorem filter_byHandler {f : Listener → Option Effect} {e : Event}
    (hf : ∀ l, (f l).all fun x => x.byHandler h == (l.handler? == some h)) :
    ((p.listenersOf r e).filterMap f).filter (Effect.byHandler h) =
      (((p.registrations r h).filter fun x => x.1 = e).map Prod.snd).filterMap f := by
  unfold Process.listenersOf Process.registrations
  induction p.listeners r with
  | nil => rfl
  | cons x xs ih =>
    obtain ⟨e', l⟩ := x
    have hl := hf l
    by_cases he : e' = e <;> by_cases hh : l.handler? = some h <;> cases hx : f l <;>
      simp_all

/-- Of the deliveries of an assignment, those of one link. -/
theorem LinksWired.assigning (hl : LinksWired p) (hg : p.links.get id = some link)
    (name : String) (value : JsValue) :
    (p.assigning link.source name value).filter (Effect.byHandler link.handler) =
      if name = link.config.sourceAttribute then [link.execution value] else [] := by
  unfold Process.assigning
  rw [filter_byHandler, hl.registered hg]
  · by_cases hn : name = link.config.sourceAttribute
    · simp [hn, Link.listener, Link.execution]
    · simp [hn, Ne.symm hn]
  · intro l
    cases l <;> simp [Listener.handler?, Effect.byHandler]

theorem LinksWired.assigned (hl : LinksWired p) (hg : p.links.get id = some link)
    (as : List Assignment) :
    (p.assigned link.source as).filter (Effect.byHandler link.handler) =
      (as.filter fun a => a.1 = link.config.sourceAttribute).map fun a =>
        link.execution a.2 := by
  unfold Process.assigned
  induction as with
  | nil => rfl
  | cons a as ih =>
    rw [List.flatMap_cons, List.filter_append, hl.assigning hg, ih]
    by_cases ha : a.1 = link.config.sourceAttribute <;> simp [ha]

/-- When the source connects, the link delivers the current value. -/
theorem LinksWired.connected (hl : LinksWired p) (hg : p.links.get id = some link) :
    (p.emitted link.source o .connected).filter (Effect.byHandler link.handler) =
      [link.execution (o.attributeValues link.config.sourceAttribute)] := by
  unfold Process.emitted
  rw [filter_byHandler, hl.registered hg]
  · simp [Link.listener, Link.execution, Listener.delivery, Emission.passed, Emission.value,
      Emission.event]
  · intro l
    cases l <;> simp [Listener.handler?, Effect.byHandler, Listener.delivery]

/-! ## Two lights -/

/-- The remote light `a` and the light `b` of this process. -/
def lights : Process :=
  let p := (watchedLight.alloc (netObject "b" Light.clazz)).on 1 (.actionOf "input")
    (.plugin .light 1)
  { p with
    netRepository := (Dictionary.empty.set "a" ⟨0, ["#home"], none⟩).set "b"
      ⟨1, ["#home"], some "b|null"⟩ }

def lightsLink : Link := ⟨"a|output|b|input", ⟨"a", "output", "b", "input"⟩, 0, 0, 1⟩

/-- The light `b` follows the light `a`. -/
def linkedLights : Process :=
  match Links.create lights lightsLink.config with
  | .ok (p, _) => p
  | .error _ => lights

theorem create_lights : Links.create lights lightsLink.config = .ok (linkedLights, lightsLink) :=
  rfl

theorem linkedLights_get : linkedLights.links.get "a|output|b|input" = some lightsLink := rfl

theorem mem_lights_listeners {r : ObjRef} {x : Event × Listener} (h : x ∈ lights.listeners r) :
    r = 0 ∧ x = (.action, .remoteAction 0 ["#home"]) ∨
      r = 1 ∧ x = (.actionOf "input", .plugin .light 1) := by
  obtain h | h := mem_listeners_on.mp h
  · have h := fewer_alloc _ _ _ h
    rw [watchedLight, publishRemote_listeners] at h
    obtain h | h := mem_listeners_on.mp h
    · simp [Process.empty, Process.alloc] at h
    · exact .inl h
  · exact .inr h

end MyLifeHome
