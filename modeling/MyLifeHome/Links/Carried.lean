import MyLifeHome.Library.Runs
import MyLifeHome.Links.Delivery

/-!
# The last value that a link has carried

A link executes an action for every change of its source, and nothing else that happens
to the process makes it do so: whatever an event leads to, the last execution carries the
value that the source has after it, or the source has not changed.
-/
namespace MyLifeHome

open Process Runs

variable {p q t : Process} {id : String} {link : Link} {ds ds' : List Effect} {c : Call}
  {calls : List Call} {a b d : JsValue} {s : ObjRef} {new : List Call}

/-! ## The last value a link has carried -/

/-- The value that the link carries when it is called now. -/
def Link.current (link : Link) (p : Process) : JsValue :=
  (p.objects link.source).attributeValues link.config.sourceAttribute

/-- The last execution carries the value `after`; without any, nothing has changed. -/
def Link.Tracks (link : Link) (ds : List Effect) (before after : JsValue) : Prop :=
  match ds.getLast? with
  | some x => x = link.execution after
  | none => after = before

theorem Link.tracks_nil : link.Tracks [] a a := rfl

theorem Link.tracks_concat (ds : List Effect) : link.Tracks (ds ++ [link.execution b]) a b := by
  simp [Link.Tracks]

theorem Link.Tracks.trans (h : link.Tracks ds a b) (g : link.Tracks ds' b d) :
    link.Tracks (ds ++ ds') a d := by
  unfold Link.Tracks at *
  rw [List.getLast?_append]
  cases h' : ds'.getLast? with
  | some x => simpa [h'] using g
  | none =>
    simp only [h'] at g
    subst g
    simpa using h

/-- From `p` to `q` the link has carried the changes of its source. -/
structure Carried (link : Link) (p q : Process) : Prop where
  trace : p.trace <+: q.trace
  tracks : ∃ ds, q.deliveries link.source = p.deliveries link.source ++ ds ∧
    link.Tracks (ds.filter (Effect.byHandler link.handler)) (link.current p) (link.current q)

theorem Carried.refl (link : Link) (p : Process) : Carried link p p :=
  ⟨List.prefix_refl _, [], by simp, Link.tracks_nil⟩

theorem Carried.trans (h : Carried link p q) (g : Carried link q t) : Carried link p t := by
  obtain ⟨ds, hds, ht⟩ := h.tracks
  obtain ⟨ds', hds', ht'⟩ := g.tracks
  refine ⟨h.trace.trans g.trace, ds ++ ds', by rw [hds', hds, List.append_assoc], ?_⟩
  rw [List.filter_append]
  exact ht.trans ht'

theorem Quiet.carried (h : Quiet p link.source q) : Carried link p q :=
  ⟨h.shape.trace, [], by simp [deliveries, h.history], by simp [Link.current, h.values, Link.Tracks]⟩

theorem Carried.executed (h : Carried link p q) :
    link.Tracks (link.executed p q) (link.current p) (link.current q) := by
  obtain ⟨ds, hds, ht⟩ := h.tracks
  rwa [Link.executed, Process.delivered, hds, List.drop_left]

/-! ## The calls of an event -/

/-- The calls with which an event starts. -/
def Call.Top : Call → Prop
  | .setAttribute _ _ _ => True
  | .emit _ e => e = .connected ∨ e = .disonnected
  | _ => False

/-- The calls that belong to other objects, or to the actions of this one. -/
def Call.Elsewhere (s : ObjRef) : Call → Prop
  | .setAttribute r _ _ => r ≠ s
  | .emit r e => r ≠ s ∨ e.event.ofAction = true
  | .listener (.link _ r _ _) _ => r ≠ s
  | _ => True

/-- The calls that are taken together with everything they lead to. -/
def Call.At (s : ObjRef) : Call → Prop
  | .setAttribute r _ _ => r = s
  | .emit r e => r = s ∧ (e = .connected ∨ e = .disonnected)
  | _ => False

theorem Call.Top.elsewhere_or_at (h : c.Top) (s : ObjRef) : c.Elsewhere s ∨ c.At s := by
  cases c with
  | setAttribute r name value => exact (em (r = s)).symm
  | emit r e =>
    by_cases hr : r = s
    · exact .inr ⟨hr, h⟩
    · exact .inl (.inl hr)
  | _ => exact h.elim

/-- An event of the source that completes is carried over the link. -/
theorem carried_at (hw : Wired p) (hl : LinksWired p) (hg : p.links.get id = some link)
    (hu : Unfed p link.source) (hc : c.At link.source) (h : Completes [c] p q) :
    Carried link p q := by
  cases c with
  | setAttribute r name value =>
    obtain rfl : r = link.source := hc
    obtain ⟨_, hd⟩ := delivered_setAttribute hw hu h
    refine ⟨hd.shape.trace, _, hd.deliveries, ?_⟩
    rw [hl.assigning hg]
    by_cases hn : name = link.config.sourceAttribute
    · simp [hn, Link.current, hd.object, Link.Tracks]
    · simp [hn, Link.current, hd.object, Link.Tracks, NetObject.assign_of_ne (Ne.symm hn)]
  | emit r e =>
    obtain ⟨rfl, rfl | rfl⟩ := hc
    · have hd := delivered_emit hw hu rfl h
      refine ⟨hd.shape.trace, _, hd.deliveries, ?_⟩
      rw [hl.connected hg]
      simp [Link.current, hd.object, Link.Tracks]
    · have hd := delivered_emit hw hu rfl h
      rw [emitted_disonnected hw] at hd
      exact ⟨hd.shape.trace, _, hd.deliveries, by simp [Link.current, hd.object, Link.Tracks]⟩
  | _ => exact hc.elim

/-- The calls of a call elsewhere are elsewhere, or set attributes of the source. -/
theorem elsewhere_calls (hw : Wired p) (hc : c.Elsewhere s) (h : step p c = .ok (q, new)) :
    ∀ x ∈ new, x.Elsewhere s ∨ x.At s := by
  intro x hx
  cases c with
  | setAttribute r name value =>
    obtain ⟨_, _, rfl⟩ := step_setAttribute_iff.mp h
    simp only [List.mem_cons, List.not_mem_nil, or_false] at hx
    obtain rfl | rfl := hx <;> exact .inl (.inl hc)
  | executeAction r name args =>
    obtain ⟨_, _, rfl⟩ := step_executeAction_iff.mp h
    simp only [List.mem_cons, List.not_mem_nil, or_false] at hx
    obtain rfl | rfl := hx <;> exact .inl (.inr rfl)
  | emit r e =>
    obtain ⟨_, rfl⟩ := step_emit_iff.mp h
    obtain ⟨l, hl, rfl⟩ := List.mem_map.mp hx
    have hreg := hw _ _ _ (mem_listenersOf.mp hl)
    left
    have hor : r ≠ s ∨ e.event.ofAction = true := hc
    generalize e.event = ev at hreg hor
    cases hreg with
    | attributeOf | connected => simpa [Call.Elsewhere, Event.ofAction] using hor
    | plugin | attributeChanged | remoteAction => trivial
  | setTimeout r t value =>
    obtain ⟨_, rfl⟩ := step_setTimeout_iff.mp h
    simp at hx
  | listener l e =>
    cases l with
    | link k r d config =>
      obtain ⟨v, _, _, rfl⟩ := step_link_iff.mp h
      obtain rfl := List.mem_singleton.mp hx
      exact .inl trivial
    | plugin type r =>
      obtain ⟨_, ⟨_, _, ops, _, _, rfl⟩ | ⟨_, rfl⟩⟩ := step_plugin_iff.mp h
      · obtain ⟨op, _, rfl⟩ := List.mem_map.mp hx
        cases op with
        | setAttribute name value => exact (em (r = s)).symm
        | setTimeout => exact .inl trivial
      · simp at hx
    | attributeChanged =>
      obtain ⟨_, _, _, rfl⟩ := step_attributeChanged_iff.mp h
      simp at hx
    | remoteAction =>
      obtain ⟨rfl, _⟩ := step_remoteAction_iff.mp h
      simp at hx

theorem Call.Elsewhere.spares (h : c.Elsewhere s) : c.Spares s := by
  cases c with
  | setAttribute => exact h
  | listener l e => cases l <;> exact h
  | _ => trivial

/-- Whatever an event leads to, a link whose source is not fed back carries its changes. -/
theorem carried (hw : Wired p) (hl : LinksWired p) (hg : p.links.get id = some link)
    (hu : Unfed p link.source) (h : Completes calls p q) (hc : ∀ c ∈ calls, c.Top) :
    Carried link p q := by
  refine (Cascade.Exec.grouped (P := SameShape p) (R := Carried link)
    (A := Call.Elsewhere link.source) (M := Call.At link.source) (Carried.refl link)
    Carried.trans ?_ ?_ h (.refl p) fun c hm => (hc c hm).elsewhere_or_at _).2
  · intro u c v hs hat hrun
    refine ⟨hs.trans (Completes.sameShape hrun), ?_⟩
    exact carried_at (hw.of_sameShape hs) (hl.of_sameShape hs) (hs.links ▸ hg)
      (hu.congr hs.listeners) hat hrun
  · intro u c v new hs helse hstep
    exact ⟨hs.trans (step_sameShape hstep), (step_quiet hstep helse.spares).carried,
      elsewhere_calls (hw.of_sameShape hs) helse hstep⟩

end MyLifeHome
