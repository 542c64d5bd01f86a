import MyLifeHome.Core.Frame

/-!
# What the events of a remote object deliver

As long as the links of an object do not lead back to it, its attributes stay as they
are assigned and its links deliver in the order of their registration; no plugin drives
a remote object, so this holds of it. The rules go from one listener to one emission,
one assignment and a list of assignments.
-/
namespace MyLifeHome

open Process

variable {p q t : Process} {r s : ObjRef} {name : String} {value : JsValue} {e : Emission}
  {o o' : NetObject} {ds ds' : List Effect} {l : Listener} {calls : List Call}

/-- From `p` to `q` the object has become `o` and its links have delivered `ds`. -/
structure Delivered (p : Process) (s : ObjRef) (o : NetObject) (ds : List Effect)
    (q : Process) : Prop where
  shape : SameShape p q
  object : q.objects s = o
  deliveries : q.deliveries s = p.deliveries s ++ ds

theorem Delivered.refl (p : Process) (s : ObjRef) : Delivered p s (p.objects s) [] p :=
  ⟨.refl p, rfl, by simp⟩

theorem Delivered.trans (h : Delivered p s o ds q) (g : Delivered q s o' ds' t) :
    Delivered p s o' (ds ++ ds') t :=
  ⟨h.shape.trans g.shape, g.object, by rw [g.deliveries, h.deliveries, List.append_assoc]⟩

theorem Quiet.delivered (h : Quiet p s q) : Delivered p s (p.objects s) [] q :=
  ⟨h.shape, h.object, by simp [Process.deliveries, h.history]⟩

theorem delivered_log {x : Effect} :
    Delivered p s (p.objects s) (if x.concerns s && x.isExecute then [x] else []) (p.log x) := by
  refine ⟨sameShape_log p x, rfl, ?_⟩
  cases hx : x.concerns s <;> cases hd : x.isExecute <;>
    simp [Process.deliveries, history_log, hx, hd]

theorem delivered_assign (p : Process) (s : ObjRef) (name : String) (value : JsValue) :
    Delivered p s ((p.objects s).assign name value) [] (p.assign s name value) := by
  refine ⟨sameShape_assign .., by simp, ?_⟩
  simp [Process.deliveries, history_assign, Effect.isExecute]

/-! ## One emission -/

/-- A link that receives no value reads its attribute. -/
def Emission.passed (o : NetObject) (e : Emission) (config : LinkConfig) : JsValue :=
  if e.value = .undefined then o.attributeValues config.sourceAttribute else e.value

/-- What a listener delivers. -/
def Listener.delivery (o : NetObject) (e : Emission) : Listener → Option Effect
  | .link h s d config => some (.execute h s d config.destinationAction (e.passed o config))
  | _ => none

/-- A listener of an event that is not an action's. -/
theorem delivered_listener (hw : Wired p) (hs : Unfed p s) (he : e.event.ofAction = false)
    (hl : (e.event, l) ∈ p.listeners s) (h : Completes [.listener l e] p q) :
    Delivered p s (p.objects s) (l.delivery (p.objects s) e).toList q := by
  have hlink : ∀ {h d config}, l = .link h s d config → Registered s e.event l →
      Delivered p s (p.objects s) (l.delivery (p.objects s) e).toList q := by
    rintro k d config rfl -
    obtain ⟨u, new, hstep, hnew⟩ := Cascade.exec_single_iff.mp h
    obtain ⟨v, hv, rfl, rfl⟩ := step_link_iff.mp hstep
    have hval : v = e.passed (p.objects s) config := by
      unfold linkValue at hv
      unfold Emission.passed
      split_ifs at hv ⊢ with hu
      · exact (NetObject.getAttribute_eq_ok_iff.mp hv).2.symm
      · exact (Except.ok.inj hv).symm
    have hlog := delivered_log (p := p) (s := s)
      (x := .execute k s d config.destinationAction v)
    obtain ⟨X, Y, ha, hX⟩ := hs
    have hquiet := Completes.quiet (hw.of_sameShape hlog.shape) (ha.congr hlog.shape.listeners)
      hnew (by simpa [Call.Within] using hX d ⟨k, config, _, hl⟩)
    have hall := hlog.trans hquiet.delivered
    simp only [Effect.concerns, Effect.isExecute, beq_self_eq_true, Bool.and_self, if_true,
      List.append_nil, log_objects] at hall
    simpa only [Listener.delivery, hval, Option.toList_some] using hall
  have hreg := hw _ _ _ hl
  generalize e.event = ev at hreg he hlink
  cases hreg with
  | attributeOf => exact hlink rfl (.attributeOf ..)
  | connected => exact hlink rfl (.connected ..)
  | plugin => simp [Event.ofAction] at he
  | remoteAction => simp [Event.ofAction] at he
  | attributeChanged r =>
    obtain ⟨u, new, hstep, hnew⟩ := Cascade.exec_single_iff.mp h
    obtain ⟨nick, _, rfl, rfl⟩ := step_attributeChanged_iff.mp hstep
    obtain rfl := Cascade.exec_nil_iff.mp hnew
    exact delivered_log (x := .nick s nick)

theorem delivered_listeners (hw : Wired p) (hs : Unfed p s)
    (he : e.event.ofAction = false) {ls : List Listener}
    (hl : ∀ l ∈ ls, (e.event, l) ∈ p.listeners s)
    (h : Completes (ls.map fun l => .listener l e) p q) :
    Delivered p s (p.objects s) (ls.filterMap (Listener.delivery (p.objects s) e)) q := by
  induction ls generalizing p with
  | nil =>
    obtain rfl := Cascade.exec_nil_iff.mp h
    exact .refl ..
  | cons l ls ih =>
    rw [List.map_cons, ← List.singleton_append] at h
    obtain ⟨u, h1, h2⟩ := Cascade.exec_append_iff.mp h
    have d1 := delivered_listener hw hs he (hl l (by simp)) h1
    have d2 := ih (hw.of_sameShape d1.shape) (hs.congr d1.shape.listeners)
      (fun k hk => by rw [d1.shape.listeners]; exact hl k (by simp [hk])) h2
    rw [d1.object] at d2
    have hcons : (l :: ls).filterMap (Listener.delivery (p.objects s) e) =
        (l.delivery (p.objects s) e).toList ++
          ls.filterMap (Listener.delivery (p.objects s) e) := by
      cases hd : l.delivery (p.objects s) e <;> simp [hd]
    exact hcons ▸ d1.trans d2

/-- What the links deliver when the event is emitted. -/
def Process.emitted (p : Process) (s : ObjRef) (o : NetObject) (e : Emission) :
    List Effect :=
  (p.listenersOf s e.event).filterMap (Listener.delivery o e)

theorem SameShape.emitted (h : SameShape p q) : q.emitted s o e = p.emitted s o e := by
  simp [Process.emitted, h.listenersOf]

theorem delivered_emit (hw : Wired p) (hs : Unfed p s) (he : e.event.ofAction = false)
    (h : Completes [.emit s e] p q) :
    Delivered p s (p.objects s) (p.emitted s (p.objects s) e) q := by
  obtain ⟨u, new, hstep, hnew⟩ := Cascade.exec_single_iff.mp h
  obtain ⟨rfl, rfl⟩ := step_emit_iff.mp hstep
  exact delivered_listeners hw hs he (fun l hl => mem_listenersOf.mp hl) hnew

/-! ## Assignments -/

/-- What the links that leave the attribute deliver when it is assigned. -/
def Process.assigning (p : Process) (s : ObjRef) (name : String) (value : JsValue) : List Effect :=
  (p.listenersOf s (.attributeOf name)).filterMap fun
    | .link h s d config => some (.execute h s d config.destinationAction value)
    | _ => none

theorem SameShape.assigning (h : SameShape p q) : q.assigning s = p.assigning s := by
  funext n v
  simp [Process.assigning, h.listenersOf]

/-- Every link from the attribute delivers the value that was just assigned. -/
theorem emitted_attributeOf (hw : Wired p) (ho : o.attributeValues name = value) :
    p.emitted s o (.attributeOf name value) = p.assigning s name value := by
  unfold Process.emitted Process.assigning
  refine List.filterMap_congr fun l hl => ?_
  have hreg := hw _ _ _ (mem_listenersOf.mp hl)
  simp only [Emission.event] at hreg
  cases hreg with
  | attributeOf h d config =>
    by_cases hv : value = .undefined <;>
      simp [Listener.delivery, Emission.passed, Emission.value, hv, ho]

theorem emitted_attribute (hw : Wired p) : p.emitted s o (.attribute name value) = [] := by
  unfold Process.emitted
  rw [List.filterMap_eq_nil_iff]
  intro l hl
  have hreg := hw _ _ _ (mem_listenersOf.mp hl)
  simp only [Emission.event] at hreg
  cases hreg
  rfl

theorem delivered_setAttribute (hw : Wired p) (hs : Unfed p s)
    (h : Completes [.setAttribute s name value] p q) :
    (p.objects s).checkAttribute name value = .ok () ∧
      Delivered p s ((p.objects s).assign name value) (p.assigning s name value) q := by
  obtain ⟨u, new, hstep, hnew⟩ := Cascade.exec_single_iff.mp h
  obtain ⟨hcheck, rfl, rfl⟩ := step_setAttribute_iff.mp hstep
  refine ⟨hcheck, ?_⟩
  rw [← List.singleton_append] at hnew
  obtain ⟨w, h1, h2⟩ := Cascade.exec_append_iff.mp hnew
  have d0 := delivered_assign p s name value
  have hw0 := hw.of_sameShape d0.shape
  have d1 := delivered_emit hw0 (hs.congr d0.shape.listeners) rfl h1
  have d01 := d0.trans d1
  have hw1 := hw.of_sameShape d01.shape
  have d2 := delivered_emit hw1 (hs.congr d01.shape.listeners) rfl h2
  have d := d01.trans d2
  rw [emitted_attribute hw1, emitted_attributeOf hw0 (by simp), d0.shape.assigning,
    d1.object] at d
  simpa using d

abbrev Assignment := String × JsValue

def NetObject.assignAll (o : NetObject) (as : List Assignment) : NetObject :=
  as.foldl (fun o a => o.assign a.1 a.2) o

@[simp] theorem NetObject.assignAll_id (as : List Assignment) : (o.assignAll as).id = o.id := by
  induction as generalizing o with
  | nil => rfl
  | cons a as ih => exact ih

@[simp] theorem NetObject.assignAll_clazz (as : List Assignment) :
    (o.assignAll as).clazz = o.clazz := by
  induction as generalizing o with
  | nil => rfl
  | cons a as ih => exact ih

theorem NetObject.assignAll_of_notMem {as : List Assignment} (h : name ∉ as.map Prod.fst) :
    (o.assignAll as).attributeValues name = o.attributeValues name := by
  induction as generalizing o with
  | nil => rfl
  | cons a as ih =>
    simp only [List.map_cons, List.mem_cons, not_or] at h
    change ((o.assign a.1 a.2).assignAll as).attributeValues name = _
    rw [ih h.2, NetObject.assign_of_ne h.1]

theorem NetObject.assignAll_of_mem (o : NetObject) {as : List Assignment} (h : name ∈ as.map Prod.fst) :
    (name, (o.assignAll as).attributeValues name) ∈ as := by
  induction as generalizing o with
  | nil => simp at h
  | cons a as ih =>
    change (name, ((o.assign a.1 a.2).assignAll as).attributeValues name) ∈ _
    by_cases hm : name ∈ as.map Prod.fst
    · exact List.mem_cons_of_mem _ (ih _ hm)
    · obtain rfl : name = a.1 := by simpa [hm] using h
      rw [NetObject.assignAll_of_notMem hm, NetObject.assign_self]
      simp

def Assignment.call (s : ObjRef) (a : Assignment) : Call := .setAttribute s a.1 a.2

/-- What the links deliver for a list of assignments. -/
def Process.assigned (p : Process) (s : ObjRef) (as : List Assignment) : List Effect :=
  as.flatMap fun a => p.assigning s a.1 a.2

theorem SameShape.assigned (h : SameShape p q) {as : List Assignment} :
    q.assigned s as = p.assigned s as := by
  simp [Process.assigned, h.assigning]

/-- A list of assignments that completes passes its checks, gives the object the values
and makes every link deliver each value of its attribute. -/
theorem delivered_assignments {as : List Assignment} (hw : Wired p) (hs : Unfed p s)
    (h : Completes (as.map (Assignment.call s)) p q) :
    (∀ a ∈ as, (p.objects s).checkAttribute a.1 a.2 = .ok ()) ∧
      Delivered p s ((p.objects s).assignAll as) (p.assigned s as) q := by
  induction as generalizing p with
  | nil =>
    obtain rfl := Cascade.exec_nil_iff.mp h
    exact ⟨by simp, .refl ..⟩
  | cons a as ih =>
    rw [List.map_cons, ← List.singleton_append] at h
    obtain ⟨u, h1, h2⟩ := Cascade.exec_append_iff.mp h
    obtain ⟨hcheck, d1⟩ := delivered_setAttribute hw hs h1
    obtain ⟨hrest, d2⟩ := ih (hw.of_sameShape d1.shape) (hs.congr d1.shape.listeners) h2
    refine ⟨?_, ?_⟩
    · intro b hb
      rcases List.mem_cons.mp hb with rfl | hb
      · exact hcheck
      · rw [NetObject.checkAttribute_congr (d1.shape.clazz s).symm]
        exact hrest b hb
    · rw [d1.object, d1.shape.assigned] at d2
      exact d1.trans d2

/-- The listeners of the object return, in every state that calls lead to. -/
def Returns (p : Process) (s : ObjRef) : Prop :=
  ∀ t e, SameShape p t → e.event.ofAction = false → ∃ u, Completes [.emit s e] t u

theorem Returns.of_sameShape (hr : Returns p s) (h : SameShape p q) : Returns q s :=
  fun t e hq he => hr t e (h.trans hq) he

/-- An object that only actions have listeners for. -/
theorem returns_of_ofAction (h : ∀ x ∈ p.listeners s, x.1.ofAction = true) : Returns p s := by
  intro t e hshape he
  have hnil : t.listenersOf s e.event = [] := by
    rw [hshape.listenersOf]
    refine List.eq_nil_iff_forall_not_mem.mpr fun l hl => ?_
    have hx := h _ (mem_listenersOf.mp hl)
    rw [he] at hx
    contradiction
  refine ⟨t, .single (step_emit_iff.mpr ⟨rfl, rfl⟩) ?_⟩
  rw [hnil]
  exact .nil t

/-- Assignments that pass their checks complete when the listeners return. -/
theorem completes_assignments {as : List Assignment} (hr : Returns p s)
    (hc : ∀ a ∈ as, (p.objects s).checkAttribute a.1 a.2 = .ok ()) :
    ∃ q, Completes (as.map (Assignment.call s)) p q := by
  induction as generalizing p with
  | nil => exact ⟨p, .nil p⟩
  | cons a as ih =>
    have hshape := sameShape_assign p s a.1 a.2
    obtain ⟨u, hu⟩ := hr _ (.attributeOf a.1 a.2) hshape rfl
    obtain ⟨v, hv⟩ := hr _ (.attribute a.1 a.2) (hshape.trans hu.sameShape) rfl
    have hpv := hshape.trans (hu.sameShape.trans hv.sameShape)
    obtain ⟨q, hq⟩ := ih (hr.of_sameShape hpv) fun b hb => by
      rw [NetObject.checkAttribute_congr (hpv.clazz s)]
      exact hc b (by simp [hb])
    exact ⟨q, .cons (step_setAttribute_iff.mpr ⟨hc a (by simp), rfl, rfl⟩) (hu.append hv) hq⟩

/-! ## The assignments of a watcher event -/

/-- The attributes with the values that their positions give them. -/
def fields : List NetMember → Option (List String) → List Assignment
  | [], _ => []
  | m :: ms, none => (m.name, .null) :: fields ms none
  | m :: ms, some [] => (m.name, .undefined) :: fields ms (some [])
  | m :: ms, some (v :: vs) => (m.name, .str v) :: fields ms (some vs)

theorem setAttributes_eq (ms : List NetMember) (values : Option (List String)) :
    setAttributes s ms values =
      (fields (ms.filter NetMember.isAttribute) values).map (Assignment.call s) := by
  induction ms generalizing values with
  | nil => rfl
  | cons m ms ih =>
    by_cases hm : m.isAttribute
    · rcases values with _ | _ | ⟨v, vs⟩ <;> simp [setAttributes, hm, fields, ih, Assignment.call]
    · simp [setAttributes, hm, ih]

@[simp] theorem map_fst_fields (ms : List NetMember) (values : Option (List String)) :
    (fields ms values).map Prod.fst = ms.map NetMember.name := by
  induction ms generalizing values with
  | nil => rfl
  | cons m ms ih => rcases values with _ | _ | ⟨v, vs⟩ <;> simp [fields, ih]

theorem fields_none (ms : List NetMember) : fields ms none = ms.map fun m => (m.name, .null) := by
  induction ms with
  | nil => rfl
  | cons m ms ih => simp [fields, ih]

/-- With as many values as attributes, each attribute is given a value. -/
theorem fields_some {ms : List NetMember} {vs : List String} (h : ms.length ≤ vs.length) :
    fields ms (some vs) = (ms.zip vs).map fun x => (x.1.name, .str x.2) := by
  induction ms generalizing vs with
  | nil => rfl
  | cons m ms ih =>
    cases vs with
    | nil => simp at h
    | cons v vs => simp [fields, ih (by simpa using h)]

theorem fields_map (ms : List NetMember) (f : NetMember → String) :
    fields ms (some (ms.map f)) = ms.map fun m => (m.name, .str (f m)) := by
  induction ms with
  | nil => rfl
  | cons m ms ih => simp [fields, ih]

theorem setOnline_online (hw : p.watcher.isSome) : p.setOnline p.online = p := by
  obtain ⟨w, hw⟩ := Option.isSome_iff_exists.mp hw
  cases p
  cases hw
  rfl

/-- The object that the watcher has under the id; no plugin drives it. -/
structure Watched (p : Process) (id : String) (r : ObjRef) : Prop where
  wired : Wired p
  remote : p.remote id = some r
  passive : ¬HasPlugin p r

theorem Watched.of_sameShape {id : String} (hr : Watched p id r) (h : SameShape p q) :
    Watched q id r where
  wired := hr.wired.of_sameShape h
  remote := by rw [← hr.remote, Process.remote, Process.remote, h.watcher]
  passive := mt (HasPlugin.congr h).mp hr.passive

theorem Watched.unfed {id : String} (hr : Watched p id r) : Unfed p r :=
  unfed_of_not_hasPlugin hr.passive

variable {nick oldNick id : String}

/-- `disonnected` has no listeners. -/
@[simp] theorem emitted_disonnected (hw : Wired p) : p.emitted s o .disonnected = [] := by
  unfold Process.emitted
  rw [List.filterMap_eq_nil_iff]
  intro l hl
  have hreg := hw _ _ _ (mem_listenersOf.mp hl)
  simp only [Emission.event] at hreg
  cases hreg

/-- The assignments of the event to an object of the class. -/
def NickEvent.assignments (ev : NickEvent) (k : NetClass) : List Assignment :=
  fields k.attributes ev.values

variable {ev : NickEvent}

/-- The calls of an event are its assignments, `disonnected` before and `connected` after. -/
theorem calls_eq (h : p.remote (nickId ev.nick) = some r) : ev.calls p =
    (if ev.values = none then [.emit r .disonnected] else []) ++
      ((ev.assignments (p.objects r).clazz).map (Assignment.call r) ++
        if ev.isOnline then [.emit r .connected] else []) := by
  cases ev <;> simp only [NickEvent.nick] at h <;>
    simp [NickEvent.calls, NickEvent.values, NickEvent.isOnline, NickEvent.assignments, nickOnline,
      nickChanged, nickOffline, h, setAttributes_eq, NetClass.attributes]

/-- An event that completes has assigned its values, and every link has delivered those
of its attribute; `connected` makes every link deliver once more. -/
theorem delivered_event (hr : Watched p (nickId ev.nick) r) (h : Completes (ev.calls p) p q) :
    let as := ev.assignments (p.objects r).clazz
    (∀ a ∈ as, (p.objects r).checkAttribute a.1 a.2 = .ok ()) ∧
      Delivered p r ((p.objects r).assignAll as)
        (p.assigned r as ++
          if ev.isOnline then p.emitted r ((p.objects r).assignAll as) .connected else []) q := by
  rw [calls_eq hr.remote] at h
  obtain ⟨u, h1, hrest⟩ := Cascade.exec_append_iff.mp h
  obtain ⟨v, h2, h3⟩ := Cascade.exec_append_iff.mp hrest
  have d1 : Delivered p r (p.objects r) [] u := by
    split_ifs at h1
    · have d := delivered_emit hr.wired hr.unfed rfl h1
      rwa [emitted_disonnected hr.wired] at d
    · obtain rfl := Cascade.exec_nil_iff.mp h1
      exact .refl ..
  have hu := hr.of_sameShape d1.shape
  obtain ⟨hc, d2⟩ := delivered_assignments hu.wired hu.unfed h2
  rw [d1.object, d1.shape.assigned] at d2
  rw [d1.object] at hc
  refine ⟨hc, ?_⟩
  have d12 := d1.trans d2
  split_ifs at h3 ⊢
  · have hv := hr.of_sameShape d12.shape
    have d3 := delivered_emit hv.wired hv.unfed rfl h3
    rw [d2.object, d12.shape.emitted] at d3
    exact d12.trans d3
  · obtain rfl := Cascade.exec_nil_iff.mp h3
    simpa using d12

/-- An event whose values pass their checks completes when the listeners return. -/
theorem completes_event (hr : Watched p (nickId ev.nick) r) (hret : Returns p r)
    (hc : ∀ a ∈ ev.assignments (p.objects r).clazz,
      (p.objects r).checkAttribute a.1 a.2 = .ok ()) : ∃ q, Completes (ev.calls p) p q := by
  have hemit : ∀ {t : Process} (e : Emission) (b : Prop) [Decidable b], SameShape p t →
      e.event.ofAction = false → ∃ u, Completes (if b then [.emit r e] else []) t u := by
    intro t e b _ ht he
    split_ifs
    · exact hret t e ht he
    · exact ⟨t, .nil t⟩
  obtain ⟨u, hu⟩ := hemit .disonnected (ev.values = none) (.refl p) rfl
  have hcu : ∀ a ∈ ev.assignments (p.objects r).clazz,
      (u.objects r).checkAttribute a.1 a.2 = .ok () := by
    intro a ha
    rw [NetObject.checkAttribute_congr (hu.sameShape.clazz r)]
    exact hc a ha
  obtain ⟨v, hv⟩ := completes_assignments (hret.of_sameShape hu.sameShape) hcu
  obtain ⟨q, hq⟩ := hemit .connected (ev.isOnline = true) (hu.sameShape.trans hv.sameShape) rfl
  exact ⟨q, (calls_eq hr.remote).symm ▸ hu.append (hv.append hq)⟩

end MyLifeHome
