import MyLifeHome.Core.Frame
import MyLifeHome.Designer.Schema

/-!
# Links that the designer accepts

The designer decides which members may be linked, the handler of the link calls the
action with one argument, and `executeAction` checks the call. The three agree except
on actions without arguments, which the designer accepts and the handler cannot call.
-/
namespace MyLifeHome.Links

open Designer

variable {p q t : Process} {source destination : ObjRef} {config : LinkConfig} {v : JsValue}
  {new calls : List Call}

/-- The handler of a link, called with an event, makes a call of `executeAction` that
passes all its checks. -/
def HandlerAccepted (p : Process) (l : Listener) (e : Emission) : Prop :=
  ∃ q d action args, step p (.listener l e) = .ok (q, [.executeAction d action args]) ∧
    (q.objects d).checkAction action args = .ok ()

/-- After an accepted assignment, and whatever other listeners have done since, a link
passes on a value that its attribute accepts. -/
theorem linkValue_of_completes
    (hset : step p (.setAttribute source config.sourceAttribute v) = .ok (q, new))
    (hpre : Completes calls q t) :
    ∃ w, linkValue (t.objects source) config.sourceAttribute v = .ok w ∧
      (t.objects source).checkAttribute config.sourceAttribute w = .ok () := by
  have hshape := (step_sameShape hset).trans hpre.sameShape
  obtain ⟨hcheck, rfl, _⟩ := step_setAttribute_iff.mp hset
  have hsound : (t.objects source).Sound config.sourceAttribute := by
    refine hpre.sound ?_
    simpa [NetObject.Sound, NetObject.checkAttribute] using hcheck
  by_cases hv : v = .undefined
  · obtain ⟨type, ht, _⟩ := NetObject.checkAttribute_eq_ok_iff.mp hsound
    refine ⟨(t.objects source).attributeValues config.sourceAttribute, ?_, hsound⟩
    simp [linkValue, hv, NetObject.getAttribute_eq_ok_iff, ht]
  · refine ⟨v, by simp [linkValue, hv], ?_⟩
    rwa [NetObject.checkAttribute_congr (hshape.clazz source)]

/-- The handler is accepted exactly when the action can be called with the one value that
the link passes on. -/
theorem handlerAccepted_iff {w : JsValue} (h : Nat)
    (hw : linkValue (t.objects source) config.sourceAttribute v = .ok w) :
    HandlerAccepted t (.link h source destination config)
        (.attributeOf config.sourceAttribute v) ↔
      (t.objects destination).checkAction config.destinationAction [w] = .ok () := by
  constructor
  · rintro ⟨u, d, action, args, hs, ha⟩
    obtain ⟨w', hw', rfl, hcall⟩ := step_link_iff.mp hs
    obtain rfl : w = w' := Except.ok.inj (hw.symm.trans hw')
    simp only [List.cons.injEq, Call.executeAction.injEq, and_true] at hcall
    obtain ⟨rfl, rfl, rfl⟩ := hcall
    exact ha
  · intro ha
    exact ⟨_, destination, config.destinationAction, [w],
      step_link_iff.mpr ⟨w, hw, rfl, rfl⟩, ha⟩

/-- A link that the designer accepts is one the core can run, in any state in which its
turn may come, provided that its action has an argument. -/
theorem accepted_link_runs_iff {s d : NetMember} (h : Nat)
    (hs : (p.objects source).clazz.getMember config.sourceAttribute = some s)
    (hd : (p.objects destination).clazz.getMember config.destinationAction = some d)
    (hlink : checkLinkTypes s d = .ok true)
    (hset : step p (.setAttribute source config.sourceAttribute v) = .ok (q, new))
    (hpre : Completes calls q t) :
    HandlerAccepted t (.link h source destination config)
        (.attributeOf config.sourceAttribute v) ↔ d.membertype ≠ .action [] := by
  have hshape := (step_sameShape hset).trans hpre.sameShape
  obtain ⟨w, hw, hcheck⟩ := linkValue_of_completes hset hpre
  rw [handlerAccepted_iff h hw, NetObject.checkAction_eq_ok_iff]
  obtain ⟨type, hattr, hv⟩ := NetObject.checkAttribute_eq_ok_iff.mp hcheck
  rw [hshape.clazz] at hattr ⊢
  have hmem := (NetClass.attribute_eq_ok_iff.mp hattr).symm.trans hs
  obtain rfl := Option.some.inj hmem
  obtain ⟨n, m⟩ := d
  obtain rfl : n = config.destinationAction := by simpa using List.find?_some hd
  rcases checkLinkTypes_eq_true_iff.mp hlink with hm | hm <;> simp only at hm <;> subst hm
  · have haction := NetClass.action_eq_ok_iff.mpr hd
    simp [haction]
  · have haction := NetClass.action_eq_ok_iff.mpr hd
    simp [haction, hv]

/-- The source of the example is a light, the destination a push button or a light. -/
def accepted_process (destination : NetClass) : Process :=
  (Process.empty.alloc (netObject "light" Light.clazz)).alloc (netObject "to" destination)

def accepted_config : LinkConfig := ⟨"light", "output", "to", "input"⟩

/-- Two lights can be linked. -/
theorem accepted_link_runs_light :
    HandlerAccepted ((accepted_process Light.clazz).assign 0 "output" (.str "on"))
        (.link 0 0 1 accepted_config) (.attributeOf "output" (.str "on")) ↔
      (netAction "input" [boolean]).membertype ≠ .action [] :=
  accepted_link_runs_iff (s := netAttribute "output" boolean) 0 rfl rfl (by decide)
    (step_setAttribute_iff.mpr ⟨by decide, rfl, rfl⟩) (.nil _)

/-- The designer accepts a link from a light to a push button; its handler throws. -/
theorem accepted_link_throws :
    ¬ ∀ (p q t : Process) (source destination : ObjRef) (config : LinkConfig) (s d : NetMember)
      (v : JsValue) (new calls : List Call) (h : Nat),
      (p.objects source).clazz.getMember config.sourceAttribute = some s →
      (p.objects destination).clazz.getMember config.destinationAction = some d →
      checkLinkTypes s d = .ok true → v ≠ .null →
      step p (.setAttribute source config.sourceAttribute v) = .ok (q, new) →
      Completes calls q t →
      HandlerAccepted t (.link h source destination config)
        (.attributeOf config.sourceAttribute v) := by
  intro hall
  have hset : step (accepted_process Button.clazz) (.setAttribute 0 "output" (.str "on")) =
      .ok ((accepted_process Button.clazz).assign 0 "output" (.str "on"),
        [.emit 0 (.attributeOf "output" (.str "on")), .emit 0 (.attribute "output" (.str "on"))]) :=
    step_setAttribute_iff.mpr ⟨by decide, rfl, rfl⟩
  have hacc := hall _ _ _ 0 1 accepted_config (netAttribute "output" boolean)
    (netAction "input" []) (.str "on") _ [] 0 rfl rfl (by decide) (by decide) hset (.nil _)
  have hcall := (handlerAccepted_iff 0 rfl).mp hacc
  exact absurd hcall (by decide)

end MyLifeHome.Links
