import MyLifeHome.Components.Loop

/-!
# Handles that are unregistered

`loop_unregister` takes a handle out of the list, not out of the copy that the round under way has
made of it.
-/
namespace MyLifeHome.Components.Loop

/-- The callback that is invoked when `list_foreach` comes to the node. -/
def Handle.callback (handle : Handle) : Item → Option Pointer
  | .tick =>
    match handle.data with
    | .tick callback => some callback
    | _ => none
  | .timer now =>
    match handle.data with
    | .timer callback _ next_run => if compare_timeval next_run now.1 ≤ 0 then some callback else none
    | _ => none
  | .listenerAdd =>
    match handle.data with
    | .listener callback_add _ => some callback_add
    | _ => none
  | .listenerProcess =>
    match handle.data with
    | .listener _ callback_process => some callback_process
    | _ => none

/-- The step invokes a callback of the handle, with its context. -/
def Invokes (l : State) (call : Call) (handle : Handle) (callback : Pointer) : Prop :=
  ∃ item node, call = .foreach item node ∧ l.handlesCopy[node]? = some handle ∧
    handle.callback item = some callback

variable {w : World} {l l' l₁ l₂ : State} {handle h callback ctx : Pointer} {call : Call}
  {calls new rest : List Call} {es : List Effect} {node : Nat} {item : Item}

theorem runItem_trace (w : World) (l : State) (node : Nat) (handle : Handle) (item : Item) :
    ∃ es, (runItem w l node handle item).1.trace = l.trace ++ es ∧
      ∀ callback ctx, .called callback ctx ∈ es ↔
        handle.callback item = some callback ∧ handle.ctx = ctx := by
  obtain ⟨address, c, data⟩ := handle
  have hsilent : ∀ {es : List Effect}, (∀ callback ctx, .called callback ctx ∉ es) →
      ∀ callback ctx, .called callback ctx ∈ es ↔ none = some callback ∧ c = ctx := by
    intro es hes callback ctx
    simp [hes]
  cases item with
  | timer now =>
    cases data with
    | timer cb period_ms next_run =>
      by_cases hdue : compare_timeval next_run now.1 ≤ 0
      · refine ⟨[.visited address now, .invoked address now, .called cb c], ?_, ?_⟩
        · simp [runItem, hdue, invoke, State.log]
        · simp [Handle.callback, hdue, eq_comm]
      · refine ⟨[.visited address now], by simp [runItem, hdue, State.log], ?_⟩
        simp only [Handle.callback, if_neg hdue]
        exact hsilent (by simp)
    | _ => exact ⟨[], (List.append_nil _).symm, hsilent (by simp)⟩
  | tick =>
    cases data with
    | tick cb => exact ⟨[.called cb c], rfl, by simp [Handle.callback, eq_comm]⟩
    | _ => exact ⟨[], (List.append_nil _).symm, hsilent (by simp)⟩
  | listenerAdd =>
    cases data with
    | listener cb _ => exact ⟨[.called cb c], rfl, by simp [Handle.callback, eq_comm]⟩
    | _ => exact ⟨[], (List.append_nil _).symm, hsilent (by simp)⟩
  | listenerProcess =>
    cases data with
    | listener _ cb => exact ⟨[.called cb c], rfl, by simp [Handle.callback, eq_comm]⟩
    | _ => exact ⟨[], (List.append_nil _).symm, hsilent (by simp)⟩

theorem runItem_state (w : World) (l : State) (node : Nat) (handle : Handle) (item : Item) :
    (runItem w l node handle item).1.handles = l.handles ∧
      (runItem w l node handle item).1.handlesCopy = l.handlesCopy ∧
      (runItem w l node handle item).1.allocated = l.allocated := by
  obtain ⟨address, c, data⟩ := handle
  cases item <;> cases data <;> grind [runItem, invoke, State.log]

/-! ## What a step does -/

/-- An operation calls nothing, and leaves the copy alone. -/
theorem perform_handles {op : Op} (h : op.perform w l = .ok l') :
    (∃ es, l'.trace = l.trace ++ es ∧ ∀ callback ctx, .called callback ctx ∉ es) ∧
    l'.handlesCopy = l.handlesCopy ∧
    (∀ x ∈ l'.handles, x.address = l.allocated ∧ l.allocated < l'.allocated ∨
      ∃ y ∈ l.handles, y.address = x.address) ∧ l.allocated ≤ l'.allocated := by
  have hnone : ∃ es, l.trace = l.trace ++ es ∧ ∀ callback ctx, .called callback ctx ∉ es :=
    ⟨[], (List.append_nil _).symm, by simp⟩
  have hadd : ∀ ctx data, ∀ x ∈ l.handles ++ [⟨l.allocated, ctx, data⟩],
      x.address = l.allocated ∧ l.allocated < l.allocated + 1 ∨ ∃ y ∈ l.handles, y.address = x.address := by
    intro ctx data x hx
    rcases List.mem_append.mp hx with hx | hx
    · exact .inr ⟨x, hx, rfl⟩
    · obtain rfl := List.mem_singleton.mp hx
      exact .inl ⟨rfl, Nat.lt_succ_self _⟩
  cases op with
  | registerTick callback ctx =>
    obtain rfl := Except.ok.inj h
    exact ⟨hnone, rfl, hadd _ _, Nat.le_succ _⟩
  | registerListener callback_add callback_process ctx =>
    obtain rfl := Except.ok.inj h
    exact ⟨hnone, rfl, hadd _ _, Nat.le_succ _⟩
  | registerTimer callback ctx period_ms =>
    simp only [Op.perform] at h
    split_ifs at h
    split at h
    · cases h
    · obtain rfl := Except.ok.inj h
      exact ⟨⟨_, rfl, by simp⟩, rfl, hadd _ _, Nat.le_succ _⟩
  | unregister handle =>
    simp only [Op.perform] at h
    split_ifs at h
    obtain rfl := Except.ok.inj h
    exact ⟨hnone, rfl, fun x hx => .inr ⟨x, (List.mem_filter.mp hx).1, rfl⟩, Nat.le_refl _⟩
  | setCtx handle ctx =>
    simp only [Op.perform] at h
    split_ifs at h
    obtain rfl := Except.ok.inj h
    refine ⟨hnone, rfl, fun x hx => ?_, Nat.le_refl _⟩
    obtain ⟨y, hy, rfl⟩ := List.mem_map.mp hx
    refine .inr ⟨y, hy, ?_⟩
    split_ifs <;> rfl
  | exit =>
    obtain rfl := Except.ok.inj h
    exact ⟨hnone, rfl, fun x hx => .inr ⟨x, hx, rfl⟩, Nat.le_refl _⟩

theorem setNextRun_address (handle : Handle) (now : Reading) :
    (handle.setNextRun now).address = handle.address := by
  unfold Handle.setNextRun
  split <;> rfl

theorem mem_modify {f : Handle → Handle} {x : Handle} {xs : List Handle}
    (hx : x ∈ xs.modify node f) : x ∈ xs ∨ ∃ y ∈ xs, f y = x := by
  obtain ⟨k, hk, rfl⟩ := List.mem_iff_getElem.mp hx
  rw [List.getElem_modify]
  rw [List.length_modify] at hk
  split_ifs
  · exact .inr ⟨_, List.getElem_mem hk, rfl⟩
  · exact .inl (List.getElem_mem hk)

/-- A new handle has a new address, and the copy is made of the list when a round begins. -/
theorem step_handles (hstep : step w l call = .ok (l', new)) :
    (∀ x ∈ l'.handles, x.address = l.allocated ∧ l.allocated < l'.allocated ∨
      ∃ y ∈ l.handles, y.address = x.address) ∧ l.allocated ≤ l'.allocated ∧
    ((∀ x ∈ l'.handlesCopy, ∃ y ∈ l.handlesCopy, y.address = x.address) ∨
      call = .loopRun ∧ l'.handlesCopy = l.handles) := by
  have hold : ∀ xs : List Handle, ∀ x ∈ xs, ∃ y ∈ xs, y.address = x.address :=
    fun xs x hx => ⟨x, hx, rfl⟩
  cases call with
  | op op =>
    obtain ⟨u, hop, hok⟩ := Checked.bind_eq_ok_iff.mp hstep
    obtain ⟨rfl, rfl⟩ := Prod.mk.inj (Except.ok.inj hok)
    obtain ⟨_, hcopy, hhandles, hle⟩ := perform_handles hop
    exact ⟨hhandles, hle, .inl (hcopy ▸ hold _)⟩
  | loopRun =>
    simp only [Loop.step] at hstep
    split_ifs at hstep <;> obtain ⟨rfl, rfl⟩ := Prod.mk.inj (Except.ok.inj hstep)
    · exact ⟨fun x hx => .inr (hold _ x hx), Nat.le_refl _, .inr ⟨rfl, rfl⟩⟩
    · exact ⟨fun x hx => .inr (hold _ x hx), Nat.le_refl _, .inl (hold _)⟩
  | runTimers =>
    simp only [Loop.step] at hstep
    split at hstep
    · cases hstep
    · obtain ⟨rfl, rfl⟩ := Prod.mk.inj (Except.ok.inj hstep)
      exact ⟨fun x hx => .inr (hold _ x hx), Nat.le_refl _, .inl (hold _)⟩
  | foreach item node =>
    simp only [Loop.step] at hstep
    split at hstep
    · obtain ⟨rfl, rfl⟩ := Prod.mk.inj (Except.ok.inj hstep)
      exact ⟨fun x hx => .inr (hold _ x hx), Nat.le_refl _, .inl (hold _)⟩
    · rename_i handle hget
      obtain ⟨rfl, rfl⟩ := Prod.mk.inj (Except.ok.inj hstep)
      obtain ⟨hhandles, hcopy, hallocated⟩ := runItem_state w l node handle item
      rw [hhandles, hcopy, hallocated]
      exact ⟨fun x hx => .inr (hold _ x hx), Nat.le_refl _, .inl (hold _)⟩
  | setNextRun node now =>
    obtain ⟨rfl, rfl⟩ := Prod.mk.inj (Except.ok.inj hstep)
    refine ⟨fun x hx => .inr (hold _ x hx), Nat.le_refl _, .inl fun x hx => ?_⟩
    rcases mem_modify hx with hx | ⟨y, hy, rfl⟩
    · exact hold _ x hx
    · exact ⟨y, hy, (setNextRun_address y now).symm⟩
  | select =>
    simp only [Loop.step] at hstep
    split_ifs at hstep
    obtain ⟨rfl, rfl⟩ := Prod.mk.inj (Except.ok.inj hstep)
    exact ⟨fun x hx => .inr (hold _ x hx), Nat.le_refl _, .inl (hold _)⟩
  | clear =>
    obtain ⟨rfl, rfl⟩ := Prod.mk.inj (Except.ok.inj hstep)
    exact ⟨fun x hx => .inr (hold _ x hx), Nat.le_refl _, .inl (by simp)⟩

/-- What is called is called for a node of the copy. -/
theorem called_iff (hstep : step w l call = .ok (l', new)) (htrace : l'.trace = l.trace ++ es) :
    .called callback ctx ∈ es ↔ ∃ handle, Invokes l call handle callback ∧ handle.ctx = ctx := by
  have hsilent : (∃ es', l'.trace = l.trace ++ es' ∧ ∀ callback ctx, .called callback ctx ∉ es') →
      (∀ item node handle, call = .foreach item node → l.handlesCopy[node]? ≠ some handle) →
      (.called callback ctx ∈ es ↔ ∃ handle, Invokes l call handle callback ∧ handle.ctx = ctx) := by
    rintro ⟨es', hes', hnone⟩ hno
    obtain rfl := List.append_cancel_left (htrace.symm.trans hes')
    refine iff_of_false (hnone callback ctx) ?_
    rintro ⟨handle, ⟨item, node, rfl, hget, _⟩, _⟩
    exact hno item node handle rfl hget
  have hnothing : l'.trace = l.trace →
      ∃ es', l'.trace = l.trace ++ es' ∧ ∀ callback ctx, .called callback ctx ∉ es' :=
    fun h => ⟨[], by simpa using h, by simp⟩
  cases call with
  | op op =>
    obtain ⟨u, hop, hok⟩ := Checked.bind_eq_ok_iff.mp hstep
    obtain ⟨rfl, rfl⟩ := Prod.mk.inj (Except.ok.inj hok)
    exact hsilent (perform_handles hop).1 (by simp)
  | loopRun =>
    simp only [Loop.step] at hstep
    split_ifs at hstep <;> obtain ⟨rfl, rfl⟩ := Prod.mk.inj (Except.ok.inj hstep)
    · exact hsilent (hnothing rfl) (by simp)
    · exact hsilent (hnothing rfl) (by simp)
  | runTimers =>
    simp only [Loop.step] at hstep
    split at hstep
    · cases hstep
    · obtain ⟨rfl, rfl⟩ := Prod.mk.inj (Except.ok.inj hstep)
      exact hsilent ⟨_, rfl, by simp⟩ (by simp)
  | foreach item node =>
    simp only [Loop.step] at hstep
    split at hstep
    · rename_i hget
      obtain ⟨rfl, rfl⟩ := Prod.mk.inj (Except.ok.inj hstep)
      refine hsilent (hnothing rfl) ?_
      intro item' node' handle heq
      obtain ⟨_, rfl⟩ := Call.foreach.inj heq
      simp [hget]
    · rename_i handle hget
      obtain ⟨rfl, rfl⟩ := Prod.mk.inj (Except.ok.inj hstep)
      obtain ⟨es', hes', hiff⟩ := runItem_trace w l node handle item
      obtain rfl := List.append_cancel_left (htrace.symm.trans hes')
      rw [hiff]
      constructor
      · rintro ⟨hcallback, hctx⟩
        exact ⟨handle, ⟨item, node, rfl, hget, hcallback⟩, hctx⟩
      · rintro ⟨handle', ⟨item', node', heq, hget', hcallback⟩, hctx⟩
        obtain ⟨rfl, rfl⟩ := Call.foreach.inj heq
        rw [hget] at hget'
        obtain rfl := Option.some.inj hget'
        exact ⟨hcallback, hctx⟩
  | setNextRun node now =>
    obtain ⟨rfl, rfl⟩ := Prod.mk.inj (Except.ok.inj hstep)
    exact hsilent (hnothing rfl) (by simp)
  | select =>
    simp only [Loop.step] at hstep
    split_ifs at hstep
    obtain ⟨rfl, rfl⟩ := Prod.mk.inj (Except.ok.inj hstep)
    exact hsilent (hnothing rfl) (by simp)
  | clear =>
    obtain ⟨rfl, rfl⟩ := Prod.mk.inj (Except.ok.inj hstep)
    exact hsilent (hnothing rfl) (by simp)

/-! ## Handles that are gone -/

/-- The addresses of the handles have been allocated. -/
def Allocated (l : State) : Prop := ∀ handle ∈ l.handles, handle.address < l.allocated

theorem Allocated.step (hl : Allocated l) (hstep : Loop.step w l call = .ok (l', new)) :
    Allocated l' := by
  obtain ⟨hhandles, hle, _⟩ := step_handles hstep
  intro x hx
  rcases hhandles x hx with ⟨haddress, hlt⟩ | ⟨y, hy, haddress⟩
  · exact haddress ▸ hlt
  · have hlt : x.address < l.allocated := haddress ▸ hl y hy
    exact Nat.lt_of_lt_of_le hlt hle

/-- The handle is not in the list any more, and its address is not given again. -/
structure Gone (h : Pointer) (l : State) : Prop where
  allocated : h < l.allocated
  notMem : ∀ handle ∈ l.handles, handle.address ≠ h

/-- It is not in the copy either. -/
structure Forgotten (h : Pointer) (l : State) : Prop extends Gone h l where
  copy : ∀ handle ∈ l.handlesCopy, handle.address ≠ h

theorem Forgotten.not_invokes (hl : Forgotten h l) {handle : Handle} (haddress : handle.address = h) :
    ¬Invokes l call handle callback := by
  rintro ⟨item, node, rfl, hget, _⟩
  exact hl.copy handle (List.mem_of_getElem? hget) haddress

theorem Gone.step (hl : Gone h l) (hstep : Loop.step w l call = .ok (l', new)) : Gone h l' := by
  obtain ⟨hhandles, hle, _⟩ := step_handles hstep
  refine ⟨Nat.lt_of_lt_of_le hl.allocated hle, fun x hx => ?_⟩
  rcases hhandles x hx with ⟨haddress, _⟩ | ⟨y, hy, haddress⟩
  · exact haddress ▸ Nat.ne_of_gt hl.allocated
  · exact haddress ▸ hl.notMem y hy

theorem Forgotten.step (hl : Forgotten h l) (hstep : Loop.step w l call = .ok (l', new)) :
    Forgotten h l' := by
  obtain ⟨_, _, hcopy⟩ := step_handles hstep
  refine ⟨hl.toGone.step hstep, fun x hx => ?_⟩
  rcases hcopy with hcopy | ⟨_, hcopy⟩
  · obtain ⟨y, hy, haddress⟩ := hcopy x hx
    exact haddress ▸ hl.copy y hy
  · exact hl.notMem x (hcopy ▸ hx)

/-- A round begins with a copy that does not have it. -/
theorem Gone.loopRun (hl : Gone h l) (hrunning : l.running = true)
    (hstep : Loop.step w l .loopRun = .ok (l', new)) : Forgotten h l' := by
  refine ⟨hl.step hstep, ?_⟩
  rw [Loop.step, if_pos hrunning] at hstep
  obtain ⟨rfl, rfl⟩ := Prod.mk.inj (Except.ok.inj hstep)
  exact hl.notMem

theorem gone_unregister (hl : Allocated l)
    (hstep : Loop.step w l (.op (.unregister h)) = .ok (l', new)) :
    Gone h l' ∧ l'.handlesCopy = l.handlesCopy := by
  obtain ⟨u, hop, hok⟩ := Checked.bind_eq_ok_iff.mp hstep
  obtain ⟨rfl, rfl⟩ := Prod.mk.inj (Except.ok.inj hok)
  simp only [Op.perform] at hop
  split_ifs at hop with hmem
  obtain rfl := Except.ok.inj hop
  obtain ⟨x, hx, rfl⟩ := hmem
  refine ⟨⟨hl x hx, fun y hy => ?_⟩, rfl⟩
  simpa using (List.mem_filter.mp hy).2

/-- Once a handle is unregistered no callback of it is invoked, nor is its context passed on, unless
it is in the copy of the round under way; and not in any later round. -/
theorem not_invokes_of_unregistered (w : World) (ops : List Op)
    (hrun : Cascade.Reaches (Loop.step w) (ops.map .op ++ [.loopRun]) init
      (.op (.unregister h) :: calls) l)
    (hstep : Loop.step w l (.op (.unregister h)) = .ok (l₁, new)) :
    ((∀ handle ∈ l.handlesCopy, handle.address ≠ h) → ∀ call rest l₂,
      Cascade.Reaches (Loop.step w) (new ++ calls) l₁ (call :: rest) l₂ →
        ∀ handle callback, handle.address = h → ¬Invokes l₂ call handle callback) ∧
    ∀ calls' l₂ l₃ round call rest l₄,
      Cascade.Reaches (Loop.step w) (new ++ calls) l₁ (.loopRun :: calls') l₂ →
      Loop.step w l₂ .loopRun = .ok (l₃, round) →
      Cascade.Reaches (Loop.step w) (round ++ calls') l₃ (call :: rest) l₄ →
        ∀ handle callback, handle.address = h → ¬Invokes l₄ call handle callback := by
  have hallocated : Allocated l := hrun.invariant (P := fun _ l => Allocated l)
    (fun hs hstep => hs.step hstep) (by simp [Allocated, init])
  have hinv : Inv (.op (.unregister h) :: calls) l :=
    hrun.invariant (P := Inv) (fun hs hstep => hs.step hstep) (inv_start ops)
  obtain ⟨hgone, hcopy⟩ := gone_unregister hallocated hstep
  have hforgotten : ∀ {ts us l l'}, Cascade.Reaches (Loop.step w) ts l us l' → Forgotten h l →
      Forgotten h l' := fun hreach hl =>
    hreach.invariant (P := fun _ l => Forgotten h l) (fun hs hstep => hs.step hstep) hl
  constructor
  · intro hnot call rest l₂ hreach handle callback haddress
    have hl₁ : Forgotten h l₁ := ⟨hgone, by rwa [hcopy]⟩
    exact (hforgotten hreach hl₁).not_invokes haddress
  · intro calls' l₂ l₃ round call rest l₄ hreach hround hlater handle callback haddress
    have hl₂ : Gone h l₂ := hreach.invariant (P := fun _ l => Gone h l)
      (fun hs hstep => hs.step hstep) hgone
    have hinv₂ : Inv (.loopRun :: calls') l₂ :=
      hreach.invariant (P := Inv) (fun hs hstep => hs.step hstep) (hinv.step hstep)
    by_cases hrunning : l₂.running = true
    · exact (hforgotten hlater (hl₂.loopRun hrunning hround)).not_invokes haddress
    · -- nothing waits behind the loop
      have hnil : calls' = [] := by
        refine List.eq_nil_iff_forall_not_mem.mpr fun c hc => ?_
        exact (List.pairwise_cons.mp hinv₂.order).1 c hc
      rw [Loop.step, if_neg hrunning] at hround
      obtain ⟨rfl, rfl⟩ := Prod.mk.inj (Except.ok.inj hround)
      rw [hnil] at hlater
      cases hlater

/-- The first of two ticks unregisters the other one. -/
def unregisterWorld : World where
  gettimeofday _ := none
  callback trace := if trace = [.called 1 3] then [.unregister 1] else []
  select _ := true

def twoTicks : List Op := [.registerTick 1 3, .registerTick 2 4]

theorem twoTicks_reaches : ∃ calls l l₁, Cascade.Reaches (Loop.step unregisterWorld)
      (twoTicks.map .op ++ [.loopRun]) init (.op (.unregister 1) :: .foreach .tick 1 :: calls) l ∧
    Loop.step unregisterWorld l (.op (.unregister 1)) = .ok (l₁, []) ∧
    l₁.handlesCopy = [⟨0, 3, .tick 1⟩, ⟨1, 4, .tick 2⟩] :=
  ⟨_, _, _, .call rfl (.call rfl (.call rfl (.call rfl (.refl _ _)))), rfl, rfl⟩

theorem not_invokes_of_unregistered_twoTicks : ∃ calls l l₁, (∀ calls' l₂ l₃ round call rest l₄,
    Cascade.Reaches (Loop.step unregisterWorld) calls l₁ (.loopRun :: calls') l₂ →
    Loop.step unregisterWorld l₂ .loopRun = .ok (l₃, round) →
    Cascade.Reaches (Loop.step unregisterWorld) (round ++ calls') l₃ (call :: rest) l₄ →
      ∀ handle callback, handle.address = 1 → ¬Invokes l₄ call handle callback) ∧
    Loop.step unregisterWorld l (.op (.unregister 1)) = .ok (l₁, []) := by
  obtain ⟨calls, l, l₁, hrun, hstep, -⟩ := twoTicks_reaches
  exact ⟨_, l, l₁, (not_invokes_of_unregistered unregisterWorld twoTicks hrun hstep).2, hstep⟩

/-- In the same round the other tick still runs. -/
theorem invokes_twoTicks : ¬∀ (w : World) (ops : List Op) (h : Pointer) (calls : List Call)
    (l l₁ : State) (new : List Call) (call : Call) (rest : List Call) (l₂ : State) (handle : Handle)
    (callback : Pointer),
    Cascade.Reaches (Loop.step w) (ops.map .op ++ [.loopRun]) init
      (.op (.unregister h) :: calls) l →
    Loop.step w l (.op (.unregister h)) = .ok (l₁, new) →
    Cascade.Reaches (Loop.step w) (new ++ calls) l₁ (call :: rest) l₂ →
      handle.address = h → ¬Invokes l₂ call handle callback := by
  intro hall
  obtain ⟨calls, l, l₁, hrun, hstep, hcopy⟩ := twoTicks_reaches
  refine hall unregisterWorld twoTicks 1 _ l l₁ [] (.foreach .tick 1) calls l₁ ⟨1, 4, .tick 2⟩ 2
    hrun hstep (.refl _ _) rfl ⟨.tick, 1, rfl, ?_, rfl⟩
  simp [hcopy]

end MyLifeHome.Components.Loop
