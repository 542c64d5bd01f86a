import MyLifeHome.Links.Registry

/-!
# How often an update is delivered

An event of a remote object assigns its attributes, and each assignment reaches every
link that leaves the attribute. When the object comes online its links are called once
more, by `connected`. The first exception ends all this, so a link gets its turns only
while what is called before it returns.
-/
namespace MyLifeHome

open Process Cascade

variable {p q t : Process} {r : ObjRef} {id : String} {link : Link} {ev : NickEvent}
  {c d : Call} {cs us rest new : List Call} {e : Emission} {ls ls' : List Listener} {v w : JsValue}
  {name : String}

/-- What the links that leave the object have delivered between `p` and `q`. -/
def Process.delivered (p q : Process) (s : ObjRef) : List Effect :=
  (q.deliveries s).drop (p.deliveries s).length

theorem Delivered.delivered {o : NetObject} {ds : List Effect} (h : Delivered p r o ds q) :
    p.delivered q r = ds := by
  rw [Process.delivered, h.deliveries, List.drop_left]

/-- What the link has executed between `p` and `q`. -/
def Link.executed (link : Link) (p q : Process) : List Effect :=
  (p.delivered q link.source).filter (Effect.byHandler link.handler)

theorem deliveries_prefix (h : p.trace <+: q.trace) (s : ObjRef) :
    p.deliveries s <+: q.deliveries s := (h.filter _).filter _

/-- What has been executed up to `p` and from there. -/
theorem executed_trans {start : Process} (hs : start.trace <+: p.trace)
    (h : p.trace <+: q.trace) :
    link.executed start q = link.executed start p ++ link.executed p q := by
  obtain ⟨ds, hds⟩ := deliveries_prefix h link.source
  obtain ⟨es, hes⟩ := deliveries_prefix hs link.source
  simp only [Link.executed, Process.delivered, ← hds, ← hes, List.append_assoc, List.drop_left,
    ← List.filter_append]
  rw [← List.append_assoc, List.drop_left]

@[simp] theorem executed_self : link.executed p p = [] := by
  simp [Link.executed, Process.delivered]

/-- The link has not been called between `p` and `q`. -/
structure Uncalled (link : Link) (p q : Process) : Prop where
  shape : SameShape p q
  executed : link.executed p q = []

theorem Uncalled.trans (h : Uncalled link p q) (g : Uncalled link q t) : Uncalled link p t where
  shape := h.shape.trans g.shape
  executed := by rw [executed_trans h.shape.trace g.shape.trace, h.executed, g.executed]; rfl

/-- Nor has its attribute been assigned. -/
structure Idle (link : Link) (p q : Process) : Prop extends Uncalled link p q where
  value : (q.objects link.source).attributeValues link.config.sourceAttribute =
    (p.objects link.source).attributeValues link.config.sourceAttribute

theorem Idle.refl (link : Link) (p : Process) : Idle link p p := ⟨⟨.refl p, executed_self⟩, rfl⟩

theorem Idle.trans (h : Idle link p q) (g : Idle link q t) : Idle link p t :=
  ⟨h.toUncalled.trans g.toUncalled, g.value.trans h.value⟩

theorem Quiet.idle (h : Quiet p link.source q) : Idle link p q where
  shape := h.shape
  executed := by simp [Link.executed, Process.delivered, Process.deliveries, h.history]
  value := by rw [h.values]

/-- The calls about the link's source that do not get to the link's function. -/
def Call.Skips (p : Process) (link : Link) : Call → Prop
  | .setAttribute r name _ => r = link.source ∧ name ≠ link.config.sourceAttribute
  | .emit r e => r = link.source ∧ e.event.ofAction = false ∧
      link.listener ∉ p.listenersOf link.source e.event
  | .listener l e => l ∈ p.listenersOf link.source e.event ∧ e.event.ofAction = false ∧
      l ≠ link.listener
  | _ => False

/-- A live link of an object that no plugin drives. -/
structure LiveLink (p : Process) (id : String) (link : Link) : Prop where
  wired : Wired p
  linksWired : LinksWired p
  get : p.links.get id = some link
  passive : ¬HasPlugin p link.source

theorem LiveLink.of_sameShape (hk : LiveLink p id link) (h : SameShape p q) :
    LiveLink q id link where
  wired := hk.wired.of_sameShape h
  linksWired := hk.linksWired.of_sameShape h
  get := h.links ▸ hk.get
  passive := mt (HasPlugin.congr h).mp hk.passive

theorem Call.Skips.congr (h : SameShape p q) : c.Skips q link ↔ c.Skips p link := by
  cases c <;> simp [Call.Skips, h.listenersOf]

/-- The emission gets to the function: what is registered before it returns. -/
def Process.Gets (p : Process) (r : ObjRef) (l : Listener) (e : Emission) : Prop :=
  ∃ ls ls' q, p.listenersOf r e.event = ls ++ l :: ls' ∧
    Completes (ls.map fun k => .listener k e) p q

/-- The call gets to the function, an assignment when its check passes. -/
def Call.Gets (p : Process) (l : Listener) : Call → Prop
  | .setAttribute r name value => (p.objects r).checkAttribute name value = .ok () ∧
      (p.assign r name value).Gets r l (.attributeOf name value)
  | .emit r e => p.Gets r l e
  | _ => False

/-- The function gets its turn in the call `c`, which comes after the calls `cs`. -/
def Process.Turn (p : Process) (l : Listener) (cs : List Call) (c : Call) : Prop :=
  ∃ q, Completes cs p q ∧ c.Gets q l

/-- The attribute that the link leaves is one of its source. -/
def Link.Leaves (p : Process) (link : Link) : Prop :=
  ∃ type, (p.objects link.source).clazz.attribute link.config.sourceAttribute = .ok type

theorem Link.Leaves.of_sameShape (hv : link.Leaves p) (h : SameShape p q) : link.Leaves q := by
  simpa [Link.Leaves, h.clazz] using hv

end MyLifeHome
