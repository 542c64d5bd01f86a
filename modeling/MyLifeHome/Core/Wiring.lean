import MyLifeHome.Core.Delivery

/-!
# The repository keeps the wiring

Whatever is published, unpublished, linked and unlinked, every function stays
registered where its maker registers it, and only the manager puts plugins on objects.
-/
namespace MyLifeHome

open Process

variable {p q : Process} {r s : ObjRef} {e : Event} {l : Listener} {c : NetContainer}
  {channels : List String}

theorem wired_empty : Wired Process.empty := by
  intro r e l h
  simp [Process.empty] at h

/-- A process whose listeners are among those of another one. -/
def Fewer (p q : Process) : Prop := ∀ r x, x ∈ q.listeners r → x ∈ p.listeners r

theorem Fewer.trans {t : Process} (h : Fewer p q) (g : Fewer q t) : Fewer p t :=
  fun r x hx => h r x (g r x hx)

theorem fewer_of_eq (h : q.listeners = p.listeners) : Fewer p q := by
  intro r x hx
  rwa [h] at hx

theorem Wired.of_fewer (hw : Wired p) (h : Fewer p q) : Wired q :=
  fun r e l hl => hw r e l (h r _ hl)

theorem HasPlugin.of_fewer (h : Fewer p q) (hq : HasPlugin q r) : HasPlugin p r := by
  obtain ⟨name, type, hm⟩ := hq
  exact ⟨name, type, h r _ hm⟩

theorem fewer_removeListener : Fewer p (p.removeListener s e l) := by
  intro r x hx
  by_cases hr : r = s
  · subst hr
    exact List.mem_of_mem_erase (by simpa [removeListener] using hx)
  · simpa [removeListener, hr] using hx

theorem fewer_alloc (o : NetObject) : Fewer p (p.alloc o) := by
  intro r x hx
  by_cases hr : r = p.allocated
  · simp [alloc, hr] at hx
  · simpa [alloc, hr] using hx

theorem mem_listeners_on {x : Event × Listener} :
    x ∈ (p.on s e l).listeners r ↔ x ∈ p.listeners r ∨ r = s ∧ x = (e, l) := by
  by_cases hr : r = s
  · subst hr
    simp [on]
  · simp [on, hr]

theorem Wired.on (hw : Wired p) (h : Registered s e l) : Wired (p.on s e l) := by
  intro r e' l' hm
  rcases mem_listeners_on.mp hm with hm | ⟨rfl, hx⟩
  · exact hw _ _ _ hm
  · obtain ⟨rfl, rfl⟩ := Prod.mk.inj hx
    exact h

@[simp] theorem addChannel_listeners (channel : String) :
    (p.addChannel channel).listeners = p.listeners := by
  simp only [addChannel]
  split
  · rfl
  · split_ifs <;> rfl

@[simp] theorem removeChannel_listeners (channel : String) :
    (p.removeChannel channel).listeners = p.listeners := by
  simp only [removeChannel]
  split
  · rfl
  · split_ifs <;> rfl

@[simp] theorem foldl_addChannel_listeners :
    (channels.foldl addChannel p).listeners = p.listeners := by
  induction channels generalizing p with
  | nil => rfl
  | cons c cs ih => simp [ih]

@[simp] theorem foldl_removeChannel_listeners :
    (channels.foldl removeChannel p).listeners = p.listeners := by
  induction channels generalizing p with
  | nil => rfl
  | cons c cs ih => simp [ih]

@[simp] theorem checkClean_listeners : p.checkClean.listeners = p.listeners := by
  unfold checkClean
  split_ifs <;> rfl

theorem publishRemote_listeners :
    (p.publishRemote r channels).1.listeners =
      (p.on r .action (.remoteAction r channels)).listeners := by
  simp [publishRemote, Process.on, addObject]

theorem Wired.publishRemote (hw : Wired p) : Wired (p.publishRemote r channels).1 :=
  (hw.on (.remoteAction r channels)).of_fewer (fewer_of_eq publishRemote_listeners)

theorem publishLocal_eq_ok_iff : p.publishLocal r channels = .ok (q, c) ↔
    ∃ nick, (p.objects r).makeNick = .ok nick ∧ q = p.on r .attribute (.attributeChanged r) ∧
      c = ⟨r, channels, some nick⟩ := by
  unfold publishLocal
  cases (p.objects r).makeNick <;> simp [bind, Except.bind, pure, Except.pure, eq_comm]

theorem Wired.publish {isLocal : Bool} (hw : Wired p)
    (h : p.publish r channels isLocal = .ok (q, c)) : Wired q := by
  unfold Process.publish at h
  cases isLocal with
  | true =>
    cases hp : p.publishLocal r channels with
    | error e => simp [hp, bind, Except.bind] at h
    | ok x =>
      obtain ⟨u, c'⟩ := x
      simp only [hp, if_true, bind, Except.bind, pure, Except.pure, Except.ok.injEq,
        Prod.mk.injEq] at h
      obtain ⟨rfl, -⟩ := h
      obtain ⟨_, _, rfl, _⟩ := publishLocal_eq_ok_iff.mp hp
      exact (hw.on (.attributeChanged r)).of_fewer (fewer_of_eq rfl)
  | false =>
    simp only [Bool.false_eq_true, if_false, bind, Except.bind, pure, Except.pure,
      Except.ok.injEq, Prod.mk.injEq] at h
    obtain ⟨rfl, -⟩ := h
    exact hw.publishRemote.of_fewer (fewer_of_eq rfl)

theorem create_eq_ok {config : LinkConfig} {link : Link}
    (h : Links.create p config = .ok (q, link)) :
    ∃ source destination, Links.component p config.sourceComponent = .ok source ∧
      Links.component p config.destinationComponent = .ok destination ∧
      p.links.get (Links.makeId config) = none ∧
      link = ⟨Links.makeId config, config, p.handlers, source, destination⟩ ∧
      q = { (p.on source (.attributeOf config.sourceAttribute)
              (.link p.handlers source destination config)).on source .connected
              (.link p.handlers source destination config) with
            links := p.links.set (Links.makeId config) link, handlers := p.handlers + 1 } := by
  unfold Links.create at h
  cases hl : p.links.get (Links.makeId config) with
  | some x => simp [hl, bind, Except.bind, throw, throwThe, MonadExceptOf.throw] at h
  | none =>
    cases hs : Links.component p config.sourceComponent with
    | error e => simp [hl, hs, bind, Except.bind] at h
    | ok source =>
      cases hd : Links.component p config.destinationComponent with
      | error e => simp [hl, hs, hd, bind, Except.bind] at h
      | ok destination =>
        simp only [hl, hs, hd, bind, Except.bind, pure, Except.pure, Option.isSome_none,
          Bool.false_eq_true, if_false, Except.ok.injEq, Prod.mk.injEq] at h
        obtain ⟨rfl, rfl⟩ := h
        exact ⟨source, destination, rfl, rfl, rfl, rfl, rfl⟩

theorem Wired.create {config : LinkConfig} {link : Link} (hw : Wired p)
    (h : Links.create p config = .ok (q, link)) : Wired q := by
  obtain ⟨s, d, _, _, _, _, rfl⟩ := create_eq_ok h
  refine Wired.of_fewer ?_ (fewer_of_eq rfl)
  exact (hw.on (.attributeOf ..)).on (.connected ..)

/-! ## A watched light -/

/-- A light that is watched under the id `a`. -/
def watchedLight : Process :=
  ((Process.empty.alloc (netObject "a" Light.clazz)).publishRemote 0 ["#home"]).1

theorem watchedLight_listeners : watchedLight.listeners 0 = [(.action, .remoteAction 0 ["#home"])] :=
  rfl

theorem watchedLight_watched : Watched watchedLight "a" 0 where
  wired := (wired_empty.of_fewer (fewer_alloc _)).publishRemote
  remote := by decide
  passive := by
    rintro ⟨name, type, h⟩
    simp [watchedLight_listeners] at h

theorem watchedLight_returns : Returns watchedLight 0 :=
  returns_of_ofAction (by simp [watchedLight_listeners, Event.ofAction])

end MyLifeHome
