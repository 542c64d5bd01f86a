import MyLifeHome.Library.Cascade
import MyLifeHome.Library.Checked
import Mathlib.Data.List.Chain

/-!
# The loop of the components

`loop.c` copies its list of handles before each round, so that the callbacks can register and
unregister handles, and walks the copy once for the ticks, once for the timers and twice for the
listeners. The next deadline of a timer is written to the node of the copy that is walked.
-/
namespace MyLifeHome.Components.Loop

/-! ## Times -/

/-- `struct timeval`, with seconds and microseconds of any size. -/
structure Timeval where
  tv_sec : Int
  tv_usec : Int
  deriving DecidableEq

namespace Timeval

def micros (a : Timeval) : Int := 1000000 * a.tv_sec + a.tv_usec

/-- What `gettimeofday` answers. -/
def Normal (a : Timeval) : Prop := 0 ≤ a.tv_usec ∧ a.tv_usec < 1000000

instance (a : Timeval) : Decidable a.Normal := inferInstanceAs (Decidable (_ ∧ _))

end Timeval

/-- A reading of the clock. -/
abbrev Reading := { a : Timeval // a.Normal }

def compare_timeval (a b : Timeval) : Int :=
  if a.tv_sec > b.tv_sec then 1
  else if a.tv_sec < b.tv_sec then -1
  else if a.tv_usec > b.tv_usec then 1
  else if a.tv_usec < b.tv_usec then -1
  else 0

/-- A million microseconds are no second yet. -/
def add_ms_to_timeval (a : Timeval) (interval_ms : Int) : Timeval :=
  let tv_sec := a.tv_sec + interval_ms / 1000
  let tv_usec := a.tv_usec + interval_ms % 1000 * 1000
  if tv_usec > 1000000 then ⟨tv_sec + 1, tv_usec - 1000000⟩ else ⟨tv_sec, tv_usec⟩

theorem micros_add_ms_to_timeval (a : Timeval) (interval_ms : Int) :
    (add_ms_to_timeval a interval_ms).micros = a.micros + 1000 * interval_ms := by
  unfold add_ms_to_timeval Timeval.micros
  simp only
  split_ifs <;> simp only <;> omega

/-- With a sum on the left, the fields compare like the times. -/
theorem compare_add_ms_le_iff {a b : Timeval} (ha : a.Normal) (hb : b.Normal) (interval_ms : Int) :
    compare_timeval (add_ms_to_timeval a interval_ms) b ≤ 0 ↔
      a.micros + 1000 * interval_ms ≤ b.micros := by
  rw [← micros_add_ms_to_timeval]
  have husec : 0 ≤ (add_ms_to_timeval a interval_ms).tv_usec ∧
      (add_ms_to_timeval a interval_ms).tv_usec ≤ 1000000 := by
    obtain ⟨hlow, hhigh⟩ := ha
    unfold add_ms_to_timeval
    simp only
    split_ifs <;> simp only <;> omega
  obtain ⟨hlow, hhigh⟩ := hb
  unfold compare_timeval Timeval.micros
  split_ifs <;> omega

/-! ## The handles -/

/-- Callbacks, contexts and handles are known by their addresses. -/
abbrev Pointer := Nat

/-- The union of a handle, with its type. -/
inductive HandleData where
  | tick (callback : Pointer)
  | timer (callback : Pointer) (period_ms : Int) (next_run : Timeval)
  | listener (callback_add callback_process : Pointer)
  deriving DecidableEq

/-- A node of the list, or the copy of one. -/
structure Handle where
  address : Pointer
  ctx : Pointer
  data : HandleData
  deriving DecidableEq

/-- What a callback can do to the loop. -/
inductive Op where
  | registerTick (callback ctx : Pointer)
  | registerTimer (callback ctx : Pointer) (period_ms : Int)
  | registerListener (callback_add callback_process ctx : Pointer)
  | unregister (handle : Pointer)
  | setCtx (handle ctx : Pointer)
  | exit
  deriving DecidableEq

/-- What is observed of a run. `read` is the reading of `run_timers`, and `visited` a timer of the
copy that the walk gets to. -/
inductive Effect where
  | registered (handle : Pointer) (period_ms : Int) (now : Reading)
  | read (now : Reading)
  | visited (handle : Pointer) (now : Reading)
  | invoked (handle : Pointer) (now : Reading)
  | called (callback ctx : Pointer)
  deriving DecidableEq

structure State where
  handles : List Handle
  handlesCopy : List Handle
  running : Bool
  allocated : Pointer
  trace : List Effect

/-- The process is aborted, or uses memory that it has freed. -/
inductive Fault where
  | assertion
  | freed
  deriving DecidableEq

/-- The outside of the loop, which may depend on all that has happened: the clock, what a callback
does (the last effect says which one it is), and `select`. -/
structure World where
  gettimeofday : List Effect → Option Reading
  callback : List Effect → List Op
  select : List Effect → Bool

/-- The functions that `list_foreach` applies to the nodes of the copy. -/
inductive Item where
  | tick
  | timer (now : Reading)
  | listenerAdd
  | listenerProcess
  deriving DecidableEq

inductive Call where
  | op (op : Op)
  | loopRun
  | runTimers
  /-- `list_foreach` from a node on -/
  | foreach (item : Item) (node : Nat)
  /-- what a timer does after its callback -/
  | setNextRun (node : Nat) (now : Reading)
  | select
  | clear
  deriving DecidableEq

def init : State := ⟨[], [], true, 0, []⟩

namespace State

def log (l : State) (e : Effect) : State := { l with trace := l.trace ++ [e] }

def add (l : State) (ctx : Pointer) (data : HandleData) : State :=
  { l with
    handles := l.handles ++ [⟨l.allocated, ctx, data⟩]
    allocated := l.allocated + 1 }

end State

def Op.perform (w : World) (l : State) : Op → Except Fault State
  | .registerTick callback ctx => pure (l.add ctx (.tick callback))
  | .registerTimer callback ctx period_ms =>
    if period_ms > 0 then
      match w.gettimeofday l.trace with
      | none => throw .assertion
      | some now => pure ((l.add ctx (.timer callback period_ms
          (add_ms_to_timeval now.1 period_ms))).log (.registered l.allocated period_ms now))
    else throw .assertion
  | .registerListener callback_add callback_process ctx =>
    pure (l.add ctx (.listener callback_add callback_process))
  | .unregister handle =>
    if ∃ h ∈ l.handles, h.address = handle then
      pure { l with handles := l.handles.filter fun h => h.address ≠ handle }
    else throw .freed
  | .setCtx handle ctx =>
    if ∃ h ∈ l.handles, h.address = handle then
      pure { l with handles := l.handles.map fun h =>
        if h.address = handle then { h with ctx } else h }
    else throw .freed
  | .exit => pure { l with running := false }

/-- A callback and all that it does. -/
def invoke (w : World) (l : State) (callback ctx : Pointer) : State × List Call :=
  let l := l.log (.called callback ctx)
  (l, (w.callback l.trace).map .op)

/-- `list_run_item_tick` and the others, on a node of the copy. -/
def runItem (w : World) (l : State) (node : Nat) (handle : Handle) :
    Item → State × List Call
  | .tick =>
    match handle.data with
    | .tick callback => invoke w l callback handle.ctx
    | _ => (l, [])
  | .timer now =>
    match handle.data with
    | .timer callback _ next_run =>
      let l := l.log (.visited handle.address now)
      if compare_timeval next_run now.1 ≤ 0 then
        let (l, calls) := invoke w (l.log (.invoked handle.address now)) callback handle.ctx
        (l, calls ++ [.setNextRun node now])
      else (l, [])
    | _ => (l, [])
  | .listenerAdd =>
    match handle.data with
    | .listener callback_add _ => invoke w l callback_add handle.ctx
    | _ => (l, [])
  | .listenerProcess =>
    match handle.data with
    | .listener _ callback_process => invoke w l callback_process handle.ctx
    | _ => (l, [])

/-- `timer->next_run` of a node of the copy -/
def Handle.setNextRun (handle : Handle) (now : Reading) : Handle :=
  match handle.data with
  | .timer callback period_ms _ =>
    { handle with data := .timer callback period_ms (add_ms_to_timeval now.1 period_ms) }
  | _ => handle

def step (w : World) (l : State) : Call → Except Fault (State × List Call)
  | .op op => do pure (← op.perform w l, [])
  | .loopRun =>
    if l.running then
      pure ({ l with handlesCopy := l.handles },
        [.foreach .tick 0, .runTimers, .foreach .listenerAdd 0, .select,
          .foreach .listenerProcess 0, .clear, .loopRun])
    else pure (l, [])
  | .runTimers =>
    match w.gettimeofday l.trace with
    | none => throw .assertion
    | some now => pure (l.log (.read now), [.foreach (.timer now) 0])
  | .foreach item node =>
    match l.handlesCopy[node]? with
    | none => pure (l, [])
    | some handle =>
      let (l, calls) := runItem w l node handle item
      pure (l, calls ++ [.foreach item (node + 1)])
  | .setNextRun node now =>
    pure ({ l with handlesCopy := l.handlesCopy.modify node fun h => h.setNextRun now }, [])
  | .select => if w.select l.trace then pure (l, []) else throw .assertion
  | .clear => pure ({ l with handlesCopy := [] }, [])

/-! ## Reading a trace -/

/-- The readings of the rounds. -/
def readings (trace : List Effect) : List Reading :=
  trace.filterMap fun
    | .read now => some now
    | _ => none

/-- The readings with which a timer has been visited. -/
def visits (trace : List Effect) (handle : Pointer) : List Reading :=
  trace.filterMap fun
    | .visited h now => if h = handle then some now else none
    | _ => none

/-- The readings at which its callback has been invoked. -/
def invocations (trace : List Effect) (handle : Pointer) : List Reading :=
  trace.filterMap fun
    | .invoked h now => if h = handle then some now else none
    | _ => none

def NotLater (a b : Reading) : Prop := a.1.micros ≤ b.1.micros

instance (a b : Reading) : Decidable (NotLater a b) := inferInstanceAs (Decidable (_ ≤ _))

/-- At least `period_ms` milliseconds lie between the readings. -/
def Apart (period_ms : Int) (a b : Reading) : Prop := a.1.micros + 1000 * period_ms ≤ b.1.micros

instance (period_ms : Int) (a b : Reading) : Decidable (Apart period_ms a b) :=
  inferInstanceAs (Decidable (_ ≤ _))

variable {w : World} {l l' : State} {trace : List Effect} {handle h : Pointer} {period_ms : Int}
  {start now : Reading} {calls new : List Call} {call : Call} {e : Effect} {n node : Nat}

theorem mem_readings : now ∈ readings trace ↔ .read now ∈ trace := by
  unfold readings
  rw [List.mem_filterMap]
  constructor
  · rintro ⟨e, he, hsome⟩
    split at hsome
    · obtain rfl := Option.some.inj hsome
      exact he
    · contradiction
  · exact fun he => ⟨_, he, rfl⟩

theorem mem_visits : now ∈ visits trace handle ↔ .visited handle now ∈ trace := by
  unfold visits
  rw [List.mem_filterMap]
  constructor
  · rintro ⟨e, he, hsome⟩
    split at hsome
    · split_ifs at hsome with heq
      obtain rfl := Option.some.inj hsome
      exact heq ▸ he
    · contradiction
  · exact fun he => ⟨_, he, if_pos rfl⟩

theorem mem_invocations : now ∈ invocations trace handle ↔ .invoked handle now ∈ trace := by
  unfold invocations
  rw [List.mem_filterMap]
  constructor
  · rintro ⟨e, he, hsome⟩
    split at hsome
    · split_ifs at hsome with heq
      obtain rfl := Option.some.inj hsome
      exact heq ▸ he
    · contradiction
  · exact fun he => ⟨_, he, if_pos rfl⟩

/-! ## What a trace says about the timers -/

/-- A timer that is visited when its first deadline has passed is invoked. -/
structure Told (trace : List Effect) (allocated : Pointer) : Prop where
  registered : ∀ {handle period_ms start}, .registered handle period_ms start ∈ trace →
    handle < allocated
  unique : ∀ {handle period_ms start period_ms' start'}, .registered handle period_ms start ∈ trace →
    .registered handle period_ms' start' ∈ trace → period_ms' = period_ms ∧ start' = start
  visited : ∀ {handle now}, .visited handle now ∈ trace → handle < allocated
  invoked : ∀ {handle now}, .invoked handle now ∈ trace → handle < allocated
  due : ∀ {handle period_ms start}, .registered handle period_ms start ∈ trace →
    invocations trace handle = (visits trace handle).filter fun now => Apart period_ms start now
  read : ∀ {handle now}, .visited handle now ∈ trace → .read now ∈ trace
  sorted : (readings trace).Pairwise NotLater → ∀ handle, (visits trace handle).Pairwise NotLater

theorem told_nil : Told [] 0 := by
  constructor <;> simp [readings, visits]

def Effect.ofTimer : Effect → Bool
  | .registered _ _ _ | .visited _ _ | .invoked _ _ => true
  | .read _ | .called _ _ => false

/-- Readings and calls of callbacks say nothing about the timers. -/
theorem Told.other {allocated : Pointer} (h : Told trace allocated) (he : e.ofTimer = false) :
    Told (trace ++ [e]) allocated := by
  have hmem : ∀ e', e'.ofTimer = true → e' ∈ trace ++ [e] → e' ∈ trace := by
    intro e' he' hmem
    apply (List.mem_append.mp hmem).resolve_right
    rintro heq
    rw [List.mem_singleton.mp heq, he] at he'
    contradiction
  have hvisits : ∀ handle, visits (trace ++ [e]) handle = visits trace handle := by
    intro handle
    rw [visits, List.filterMap_append]
    cases e <;> first | contradiction | exact List.append_nil _
  have hinvocations : ∀ handle, invocations (trace ++ [e]) handle = invocations trace handle := by
    intro handle
    rw [invocations, List.filterMap_append]
    cases e <;> first | contradiction | exact List.append_nil _
  constructor
  · intro handle period_ms start hr
    exact h.registered (hmem _ rfl hr)
  · intro handle period_ms start period_ms' start' hr hr'
    exact h.unique (hmem _ rfl hr) (hmem _ rfl hr')
  · intro handle now hv
    exact h.visited (hmem _ rfl hv)
  · intro handle now hi
    exact h.invoked (hmem _ rfl hi)
  · intro handle period_ms start hr
    rw [hvisits, hinvocations]
    exact h.due (hmem _ rfl hr)
  · intro handle now hv
    exact List.mem_append_left _ (h.read (hmem _ rfl hv))
  · intro hsorted handle
    rw [hvisits]
    rw [readings, List.filterMap_append] at hsorted
    exact h.sorted (List.pairwise_append.mp hsorted).1 handle

/-- Nothing has happened yet to a new handle. -/
theorem Told.allocate {allocated : Pointer} (h : Told trace allocated) : Told trace (allocated + 1) where
  registered hr := Nat.lt_succ_of_lt (h.registered hr)
  unique := h.unique
  visited hv := Nat.lt_succ_of_lt (h.visited hv)
  invoked hi := Nat.lt_succ_of_lt (h.invoked hi)
  due := h.due
  read := h.read
  sorted := h.sorted

theorem Told.register {allocated : Pointer} (h : Told trace allocated) :
    Told (trace ++ [.registered allocated period_ms start]) (allocated + 1) := by
  have hvisits : ∀ handle, visits (trace ++ [.registered allocated period_ms start]) handle =
      visits trace handle := by simp [visits]
  have hinvocations : ∀ handle, invocations (trace ++ [.registered allocated period_ms start]) handle =
      invocations trace handle := by simp [invocations]
  have hreadings : readings (trace ++ [.registered allocated period_ms start]) = readings trace := by
    simp [readings]
  have hcases : ∀ {handle p s}, .registered handle p s ∈
      trace ++ [.registered allocated period_ms start] →
        .registered handle p s ∈ trace ∨ handle = allocated ∧ p = period_ms ∧ s = start := by
    intro handle p s hr
    simpa using hr
  constructor
  · intro handle p s hr
    rcases hcases hr with hr | ⟨rfl, -, -⟩
    · exact Nat.lt_succ_of_lt (h.registered hr)
    · exact Nat.lt_succ_self _
  · intro handle p s p' s' hr hr'
    rcases hcases hr with hold | ⟨heq, hp, hs⟩ <;>
      rcases hcases hr' with hold' | ⟨heq', hp', hs'⟩
    · exact h.unique hold hold'
    · exact absurd heq' (h.registered hold).ne
    · exact absurd heq (h.registered hold').ne
    · exact ⟨hp'.trans hp.symm, hs'.trans hs.symm⟩
  · intro handle now hv
    exact Nat.lt_succ_of_lt (h.visited (by simpa using hv))
  · intro handle now hi
    exact Nat.lt_succ_of_lt (h.invoked (by simpa using hi))
  · intro handle p s hr
    rw [hvisits, hinvocations]
    rcases hcases hr with hr | ⟨rfl, -, -⟩
    · exact h.due hr
    · have hnone : visits trace handle = [] := by
        refine List.eq_nil_iff_forall_not_mem.mpr fun now hnow => ?_
        exact absurd rfl (h.visited (mem_visits.mp hnow)).ne
      have hnot : invocations trace handle = [] := by
        refine List.eq_nil_iff_forall_not_mem.mpr fun now hnow => ?_
        exact absurd rfl (h.invoked (mem_invocations.mp hnow)).ne
      rw [hnone, hnot]
      rfl
  · intro handle now hv
    exact List.mem_append_left _ (h.read (by simpa using hv))
  · intro hsorted handle
    rw [hvisits]
    exact h.sorted (hreadings ▸ hsorted) handle

/-- The walk gets to a timer, which is invoked when its deadline has passed. -/
theorem Told.visit {allocated : Pointer} (h : Told trace allocated)
    (hr : .registered handle period_ms start ∈ trace)
    (hlast : (readings trace).getLast? = some now) :
    Told (trace ++ .visited handle now ::
      if Apart period_ms start now then [.invoked handle now] else []) allocated := by
  set es : List Effect := .visited handle now ::
    if Apart period_ms start now then [.invoked handle now] else [] with hes
  have hregistered : ∀ {h p s}, .registered h p s ∈ trace ++ es → .registered h p s ∈ trace := by
    intro h p s hmem
    apply (List.mem_append.mp hmem).resolve_right
    rw [hes]
    split_ifs <;> simp
  have hvisited : ∀ {h n}, .visited h n ∈ trace ++ es →
      .visited h n ∈ trace ∨ h = handle ∧ n = now := by
    intro h n hmem
    refine (List.mem_append.mp hmem).imp_right fun hin => ?_
    rw [hes] at hin
    split_ifs at hin <;> simpa using hin
  have hinvoked : ∀ {h n}, .invoked h n ∈ trace ++ es →
      .invoked h n ∈ trace ∨ h = handle := by
    intro h n hmem
    refine (List.mem_append.mp hmem).imp_right fun hin => ?_
    rw [hes] at hin
    split_ifs at hin
    · exact (by simpa using hin : h = handle ∧ n = now).1
    · simp at hin
  have hreadings : readings (trace ++ es) = readings trace := by
    rw [readings, List.filterMap_append, hes]
    split_ifs <;> exact List.append_nil _
  have hvisits : ∀ h, visits (trace ++ es) h =
      visits trace h ++ if handle = h then [now] else [] := by
    intro h
    rw [visits, List.filterMap_append, hes]
    by_cases heq : handle = h <;> split_ifs <;> simp [visits, heq]
  have hinvocations : ∀ h, invocations (trace ++ es) h =
      invocations trace h ++ if handle = h ∧ Apart period_ms start now then [now] else [] := by
    intro h
    rw [invocations, List.filterMap_append, hes]
    by_cases heq : handle = h <;> split_ifs <;> simp_all [invocations]
  constructor
  · intro h' p s hr'
    exact h.registered (hregistered hr')
  · intro h' p s p' s' hr' hr''
    exact h.unique (hregistered hr') (hregistered hr'')
  · intro h' n hv
    rcases hvisited hv with hv | ⟨rfl, rfl⟩
    · exact h.visited hv
    · exact h.registered hr
  · intro h' n hi
    rcases hinvoked hi with hi | rfl
    · exact h.invoked hi
    · exact h.registered hr
  · intro h' p s hr'
    have hold := hregistered hr'
    rw [hvisits, hinvocations, List.filter_append, h.due hold]
    by_cases heq : handle = h'
    · subst heq
      obtain ⟨rfl, rfl⟩ := h.unique hr hold
      by_cases hdue : Apart p s now <;> simp [hdue]
    · simp [heq]
  · intro h' n hv
    rcases hvisited hv with hv | ⟨rfl, rfl⟩
    · exact List.mem_append_left _ (h.read hv)
    · exact List.mem_append_left _ (mem_readings.mp (List.mem_of_getLast? hlast))
  · intro hsorted h'
    rw [hreadings] at hsorted
    rw [hvisits, List.pairwise_append]
    refine ⟨h.sorted hsorted h', by split_ifs <;> simp, fun a ha b hb => ?_⟩
    split_ifs at hb
    · obtain rfl := List.mem_singleton.mp hb
      -- what has been visited was read before, and this is the last reading
      have hread : a ∈ readings trace := mem_readings.mpr (h.read (mem_visits.mp ha))
      obtain ⟨before, hbefore⟩ := List.getLast?_eq_some_iff.mp hlast
      rw [hbefore] at hsorted hread
      rcases List.mem_append.mp hread with hread | hread
      · exact (List.pairwise_append.mp hsorted).2.2 a hread _ (List.mem_singleton_self _)
      · rw [List.mem_singleton.mp hread]
        exact Int.le_refl _
    · simp at hb

/-! ## What the memory holds -/

/-- A timer that is registered with its first deadline. -/
def Handle.Known (trace : List Effect) (handle : Handle) : Prop :=
  match handle.data with
  | .timer _ period_ms next_run => ∃ start, .registered handle.address period_ms start ∈ trace ∧
      next_run = add_ms_to_timeval start.1 period_ms
  | _ => True

theorem Handle.Known.append {handle : Handle} (h : handle.Known trace) (es : List Effect) :
    handle.Known (trace ++ es) := by
  unfold Known at h ⊢
  split at h
  · obtain ⟨start, hr, hnext⟩ := h
    exact ⟨start, List.mem_append_left es hr, hnext⟩
  · trivial

/-- The nodes of the copy that are still to be walked. -/
def Fresh (l : State) (node : Nat) : Prop :=
  ∀ k ≥ node, ∀ handle, l.handlesCopy[k]? = some handle → handle.Known l.trace

/-- Calls that are part of the walk over the timers. -/
def Call.timing : Call → Bool
  | .runTimers | .foreach (.timer _) _ | .setNextRun _ _ => true
  | _ => false

/-- What may wait behind a call: one walk over the timers at a time, which never goes back. -/
def Call.Before : Call → Call → Prop
  | .loopRun, _ => False
  | .runTimers, c => c.timing = false
  | .foreach (.timer _) _, c => c.timing = false
  | .setNextRun node _, c => c.timing = false ∨ ∃ now, c = .foreach (.timer now) (node + 1)
  | _, _ => True

structure Inv (calls : List Call) (l : State) : Prop where
  told : Told l.trace l.allocated
  known : ∀ handle ∈ l.handles, handle.Known l.trace
  order : calls.Pairwise Call.Before
  start : .runTimers ∈ calls → Fresh l 0
  walk : ∀ now node, .foreach (.timer now) node ∈ calls →
    Fresh l node ∧ (readings l.trace).getLast? = some now

theorem Fresh.of_trace {es : List Effect} (h : Fresh l node)
    (hcopy : l'.handlesCopy = l.handlesCopy) (htrace : l'.trace = l.trace ++ es) :
    Fresh l' node := by
  intro k hk handle hget
  rw [hcopy] at hget
  rw [htrace]
  exact (h k hk handle hget).append es

/-- A call that is no part of the walk leaves the rest as it was. -/
theorem Inv.rest {es : List Effect} (h : Inv (call :: calls) l) (htold : Told l'.trace l'.allocated)
    (hknown : ∀ handle ∈ l'.handles, handle.Known l'.trace)
    (hcopy : l'.handlesCopy = l.handlesCopy) (htrace : l'.trace = l.trace ++ es)
    (hes : ∀ now, .read now ∉ es) (hnew : new.Pairwise Call.Before)
    (hbefore : ∀ c ∈ new, ∀ c' ∈ calls, c.Before c') (hno : ∀ c ∈ new, c.timing = false) :
    Inv (new ++ calls) l' := by
  have hreadings : readings l'.trace = readings l.trace := by
    have hnone : readings es = [] := by
      refine List.eq_nil_iff_forall_not_mem.mpr fun now hnow => ?_
      exact hes now (mem_readings.mp hnow)
    rw [htrace, readings, List.filterMap_append]
    exact (congrArg _ hnone).trans (List.append_nil _)
  have hold : ∀ c, c.timing = true → c ∈ new ++ calls → c ∈ call :: calls := by
    intro c hc hmem
    rcases List.mem_append.mp hmem with hmem | hmem
    · rw [hno c hmem] at hc
      contradiction
    · exact List.mem_cons_of_mem _ hmem
  refine ⟨htold, hknown, ?_, fun hstart => ?_, fun now node hwalk => ?_⟩
  · exact List.pairwise_append.mpr ⟨hnew, (List.pairwise_cons.mp h.order).2, hbefore⟩
  · exact (h.start (hold _ rfl hstart)).of_trace hcopy htrace
  · obtain ⟨hfresh, hlast⟩ := h.walk now node (hold _ rfl hwalk)
    exact ⟨hfresh.of_trace hcopy htrace, hreadings ▸ hlast⟩

/-- What an operation does to the loop. -/
theorem perform_cases {op : Op} (h : op.perform w l = .ok l') (ht : Told l.trace l.allocated)
    (hk : ∀ handle ∈ l.handles, handle.Known l.trace) :
    Told l'.trace l'.allocated ∧ (∀ handle ∈ l'.handles, handle.Known l'.trace) ∧
      l'.handlesCopy = l.handlesCopy ∧
        ∃ es, l'.trace = l.trace ++ es ∧ ∀ now, .read now ∉ es := by
  have hadd : ∀ handle : Handle, handle.Known l.trace →
      ∀ h ∈ l.handles ++ [handle], h.Known l.trace := by
    intro handle hnew h hmem
    rcases List.mem_append.mp hmem with hmem | hmem
    · exact hk h hmem
    · exact List.mem_singleton.mp hmem ▸ hnew
  cases op with
  | registerTick callback ctx =>
    obtain rfl := Except.ok.inj h
    exact ⟨ht.allocate, hadd _ trivial, rfl, [], (List.append_nil _).symm, by simp⟩
  | registerListener callback_add callback_process ctx =>
    obtain rfl := Except.ok.inj h
    exact ⟨ht.allocate, hadd _ trivial, rfl, [], (List.append_nil _).symm, by simp⟩
  | registerTimer callback ctx period_ms =>
    simp only [Op.perform] at h
    split_ifs at h with hperiod
    cases hclock : w.gettimeofday l.trace with
    | none =>
      rw [hclock] at h
      contradiction
    | some now =>
      rw [hclock] at h
      obtain rfl := Except.ok.inj h
      refine ⟨ht.register, fun handle hmem => ?_, rfl, _, rfl, by simp⟩
      rcases List.mem_append.mp hmem with hmem | hmem
      · exact (hk handle hmem).append _
      · obtain rfl := List.mem_singleton.mp hmem
        exact ⟨now, List.mem_append_right _ (List.mem_singleton_self _), rfl⟩
  | unregister handle =>
    simp only [Op.perform] at h
    split_ifs at h
    obtain rfl := Except.ok.inj h
    refine ⟨ht, fun h hmem => ?_, rfl, [], (List.append_nil _).symm, by simp⟩
    exact hk h (List.mem_filter.mp hmem).1
  | setCtx handle ctx =>
    simp only [Op.perform] at h
    split_ifs at h
    obtain rfl := Except.ok.inj h
    refine ⟨ht, fun h hmem => ?_, rfl, [], (List.append_nil _).symm, by simp⟩
    obtain ⟨old, hold, rfl⟩ := List.mem_map.mp hmem
    split_ifs
    · exact hk old hold
    · exact hk old hold
  | exit =>
    obtain rfl := Except.ok.inj h
    exact ⟨ht, hk, rfl, [], (List.append_nil _).symm, by simp⟩

/-- What is done with a node, the walk over the timers apart, calls at most one callback. -/
theorem runItem_cases {handle : Handle} {item : Item} (hitem : ∀ now, item ≠ .timer now) :
    runItem w l node handle item = (l, []) ∨ ∃ callback ctx ops,
      runItem w l node handle item = (l.log (.called callback ctx), List.map Call.op ops) := by
  obtain ⟨address, ctx, data⟩ := handle
  have hinvoke : ∀ callback, ∃ cb c ops, invoke w l callback ctx =
      (l.log (.called cb c), List.map Call.op ops) := fun callback => ⟨callback, ctx, _, rfl⟩
  cases item with
  | timer now => exact absurd rfl (hitem now)
  | tick =>
    cases data with
    | tick callback => exact .inr (hinvoke callback)
    | _ => exact .inl rfl
  | listenerAdd =>
    cases data with
    | listener callback_add _ => exact .inr (hinvoke callback_add)
    | _ => exact .inl rfl
  | listenerProcess =>
    cases data with
    | listener _ callback_process => exact .inr (hinvoke callback_process)
    | _ => exact .inl rfl

theorem pairwise_ops (ops : List Op) : (ops.map Call.op).Pairwise Call.Before :=
  List.pairwise_map.mpr (List.pairwise_of_forall fun _ _ => trivial)

/-! ## One step -/

theorem Inv.foreach {item : Item} {handle : Handle} (h : Inv (.foreach item node :: calls) l)
    (hitem : ∀ now, item ≠ .timer now) :
    Inv ((runItem w l node handle item).2 ++ [Call.foreach item (node + 1)] ++ calls)
      (runItem w l node handle item).1 := by
  have hbefore : ∀ ops : List Op, ∀ c ∈ ops.map Call.op ++ [Call.foreach item (node + 1)], ∀ c',
      c.Before c' := by
    intro ops c hc c'
    rcases List.mem_append.mp hc with hc | hc
    · obtain ⟨op, -, rfl⟩ := List.mem_map.mp hc
      trivial
    · obtain rfl := List.mem_singleton.mp hc
      cases item with
      | timer now => exact absurd rfl (hitem now)
      | _ => trivial
  have hno : ∀ ops : List Op, ∀ c ∈ ops.map Call.op ++ [Call.foreach item (node + 1)],
      c.timing = false := by
    intro ops c hc
    rcases List.mem_append.mp hc with hc | hc
    · obtain ⟨op, -, rfl⟩ := List.mem_map.mp hc
      rfl
    · obtain rfl := List.mem_singleton.mp hc
      cases item with
      | timer now => exact absurd rfl (hitem now)
      | _ => rfl
  have hpairs : ∀ ops : List Op,
      (ops.map Call.op ++ [Call.foreach item (node + 1)]).Pairwise Call.Before := fun ops =>
    List.pairwise_append.mpr ⟨pairwise_ops ops, List.pairwise_singleton _ _,
      fun c hc c' _ => hbefore ops c (List.mem_append_left _ hc) c'⟩
  rcases runItem_cases hitem with hnone | ⟨callback, ctx, ops, hcalled⟩
  · rw [hnone]
    exact h.rest h.told h.known rfl (List.append_nil _).symm (by simp) (hpairs [])
      (fun c hc c' _ => hbefore [] c hc c') (hno [])
  · rw [hcalled]
    exact h.rest (h.told.other rfl) (fun handle hmem => (h.known handle hmem).append _) rfl rfl
      (by simp) (hpairs ops) (fun c hc c' _ => hbefore ops c hc c') (hno ops)

/-- The effects of a visit: the timer is invoked when its deadline has passed. -/
theorem runItem_timer (w : World) (l : State) (node : Nat) (now : Reading)
    (address ctx callback : Pointer) (period_ms : Int) (next_run : Timeval) :
    ∃ es, (∀ e ∈ es, e.ofTimer = false) ∧ (∀ now, .read now ∉ es) ∧ ∃ ops : List Op,
      runItem w l node ⟨address, ctx, .timer callback period_ms next_run⟩ (.timer now) =
        ({ l with trace := l.trace ++ (.visited address now ::
            if compare_timeval next_run now.1 ≤ 0 then [.invoked address now] else []) ++ es },
          ops.map .op ++ if compare_timeval next_run now.1 ≤ 0 then [.setNextRun node now] else []) := by
  by_cases hdue : compare_timeval next_run now.1 ≤ 0
  · refine ⟨[.called callback ctx], by simp [Effect.ofTimer], by simp, w.callback
      (l.trace ++ [.visited address now, .invoked address now, .called callback ctx]), ?_⟩
    simp [runItem, hdue, invoke, State.log]
  · exact ⟨[], by simp, by simp, [], by simp [runItem, hdue, State.log]⟩

theorem Told.others {allocated : Pointer} {es : List Effect} (h : Told trace allocated)
    (hes : ∀ e ∈ es, e.ofTimer = false) : Told (trace ++ es) allocated := by
  induction es generalizing trace with
  | nil => rwa [List.append_nil]
  | cons e es ih =>
    rw [← List.singleton_append, ← List.append_assoc]
    exact ih (h.other (hes e List.mem_cons_self)) fun e' he' => hes e' (List.mem_cons_of_mem e he')

/-- One node further in the walk over the timers. -/
theorem Inv.walkTimer {handle : Handle} (h : Inv (.foreach (.timer now) node :: calls) l)
    (hget : l.handlesCopy[node]? = some handle) :
    Inv ((runItem w l node handle (.timer now)).2 ++ [Call.foreach (.timer now) (node + 1)] ++ calls)
      (runItem w l node handle (.timer now)).1 := by
  obtain ⟨hfresh, hlast⟩ := h.walk now node List.mem_cons_self
  obtain ⟨hbefore, horder⟩ := List.pairwise_cons.mp h.order
  -- nothing else of the walk is pending
  have hcalls : ∀ c ∈ calls, c.timing = false := hbefore
  have hstart : .runTimers ∉ calls := fun hmem => by simpa [Call.timing] using hcalls _ hmem
  have hwalk : ∀ now' k, .foreach (.timer now') k ∉ calls := fun now' k hmem => by
    simpa [Call.timing] using hcalls _ hmem
  have hknown := hfresh node (Nat.le_refl node) handle hget
  -- the next state and the calls, for a timer and for other nodes
  suffices hmain : ∃ es, Told (l.trace ++ es) l.allocated ∧ (∀ n, .read n ∉ es) ∧
      (runItem w l node handle (.timer now)).1 = { l with trace := l.trace ++ es } ∧
        ∃ (ops : List Op) (b : Bool), (runItem w l node handle (.timer now)).2 =
          ops.map .op ++ if b then [.setNextRun node now] else [] by
    obtain ⟨es, htold, hes, hstate, ops, b, hnew⟩ := hmain
    rw [hstate, hnew]
    have hreadings : readings (l.trace ++ es) = readings l.trace := by
      have hnone : readings es = [] :=
        List.eq_nil_iff_forall_not_mem.mpr fun n hn => hes n (mem_readings.mp hn)
      rw [readings, List.filterMap_append]
      exact (congrArg _ hnone).trans (List.append_nil _)
    have hmem : ∀ c ∈ (ops.map Call.op ++ if b then [.setNextRun node now] else []) ++
        [.foreach (.timer now) (node + 1)] ++ calls, c.timing = true →
          c = .setNextRun node now ∨ c = .foreach (.timer now) (node + 1) := by
      intro c hc htiming
      simp only [List.mem_append, List.mem_map, List.mem_singleton] at hc
      rcases hc with ((⟨op, -, rfl⟩ | hset) | rfl) | hrest
      · contradiction
      · split_ifs at hset
        · exact .inl (List.mem_singleton.mp hset)
        · contradiction
      · exact .inr rfl
      · rw [hcalls c hrest] at htiming
        contradiction
    refine ⟨htold, fun handle hh => (h.known handle hh).append es, ?_, fun hc => ?_,
      fun now' k hc => ?_⟩
    · rw [List.append_assoc, List.append_assoc, List.pairwise_append]
      refine ⟨pairwise_ops ops, ?_, ?_⟩
      · have htail : ([Call.foreach (.timer now) (node + 1)] ++ calls).Pairwise Call.Before :=
          List.pairwise_cons.mpr ⟨hcalls, horder⟩
        split_ifs
        · refine List.pairwise_cons.mpr ⟨fun c hc => ?_, htail⟩
          rcases List.mem_cons.mp hc with rfl | hc
          · exact .inr ⟨now, rfl⟩
          · exact .inl (hcalls c hc)
        · exact htail
      · intro c hc _ _
        obtain ⟨op, -, rfl⟩ := List.mem_map.mp hc
        trivial
    · rcases hmem _ hc rfl with heq | heq <;> contradiction
    · rcases hmem _ hc rfl with heq | heq
      · contradiction
      · obtain ⟨hnow, rfl⟩ := Call.foreach.inj heq
        obtain rfl := Item.timer.inj hnow
        refine ⟨fun k hk handle hk' => ?_, hreadings ▸ hlast⟩
        exact (hfresh k (Nat.le_of_succ_le hk) handle hk').append es
  obtain ⟨address, ctx, data⟩ := handle
  cases data with
  | timer callback period_ms next_run =>
    obtain ⟨start, hregistered, rfl⟩ := hknown
    obtain ⟨es, hes, hread, ops, hrun⟩ := runItem_timer w l node now address ctx callback period_ms
      (add_ms_to_timeval start.1 period_ms)
    have hdue : compare_timeval (add_ms_to_timeval start.1 period_ms) now.1 ≤ 0 ↔
        Apart period_ms start now := compare_add_ms_le_iff start.2 now.2 period_ms
    simp only [hdue] at hrun
    rw [hrun]
    refine ⟨_, ?_, ?_, by rw [List.append_assoc], ops, decide (Apart period_ms start now), by simp⟩
    · rw [← List.append_assoc]
      exact (h.told.visit hregistered hlast).others hes
    · intro n hn
      rcases List.mem_append.mp hn with hn | hn
      · split_ifs at hn <;> simp at hn
      · exact hread n hn
  | tick callback => exact ⟨[], by simpa using h.told, by simp, by simp [runItem], [], false, rfl⟩
  | listener a b => exact ⟨[], by simpa using h.told, by simp, by simp [runItem], [], false, rfl⟩

theorem Inv.loopRun (h : Inv (.loopRun :: calls) l) : Inv ([.foreach .tick 0, .runTimers,
    .foreach .listenerAdd 0, .select, .foreach .listenerProcess 0, .clear, .loopRun] ++ calls)
      { l with handlesCopy := l.handles } := by
  -- nothing waits behind the loop
  obtain rfl : calls = [] := by
    refine List.eq_nil_iff_forall_not_mem.mpr fun c hc => ?_
    exact (List.pairwise_cons.mp h.order).1 c hc
  refine ⟨h.told, h.known, ?_, fun _ => ?_, fun now node hc => ?_⟩
  · simp [Call.Before, Call.timing]
  · intro k _ handle hget
    exact h.known handle (List.mem_of_getElem? hget)
  · simp at hc

theorem Inv.step (h : Inv (call :: calls) l) (hstep : step w l call = .ok (l', new)) :
    Inv (new ++ calls) l' := by
  obtain ⟨hbefore, horder⟩ := List.pairwise_cons.mp h.order
  have hsame : new = [] → l' = l → Inv (new ++ calls) l' := by
    rintro rfl rfl
    exact ⟨h.told, h.known, horder, fun hc => h.start (List.mem_cons_of_mem _ hc),
      fun now node hc => h.walk now node (List.mem_cons_of_mem _ hc)⟩
  cases call with
  | op op =>
    obtain ⟨u, hop, hok⟩ := Checked.bind_eq_ok_iff.mp hstep
    obtain ⟨rfl, rfl⟩ := Prod.mk.inj (Except.ok.inj hok)
    obtain ⟨htold, hknown, hcopy, es, htrace, hes⟩ := perform_cases hop h.told h.known
    exact h.rest htold hknown hcopy htrace hes .nil (by simp) (by simp)
  | loopRun =>
    simp only [Loop.step] at hstep
    split_ifs at hstep
    · obtain ⟨rfl, rfl⟩ := Prod.mk.inj (Except.ok.inj hstep)
      exact h.loopRun
    · obtain ⟨rfl, rfl⟩ := Prod.mk.inj (Except.ok.inj hstep)
      exact hsame rfl rfl
  | runTimers =>
    simp only [Loop.step] at hstep
    cases hclock : w.gettimeofday l.trace with
    | none =>
      rw [hclock] at hstep
      contradiction
    | some now =>
      rw [hclock] at hstep
      obtain ⟨rfl, rfl⟩ := Prod.mk.inj (Except.ok.inj hstep)
      have hcalls : ∀ c ∈ calls, c.timing = false := hbefore
      refine ⟨h.told.other rfl, fun handle hh => (h.known handle hh).append _, ?_, fun hc => ?_,
        fun now' k hc => ?_⟩
      · exact List.pairwise_cons.mpr ⟨hcalls, horder⟩
      · rcases List.mem_cons.mp hc with heq | hc
        · contradiction
        · simpa [Call.timing] using hcalls _ hc
      · rcases List.mem_cons.mp hc with heq | hc
        · obtain ⟨hnow, rfl⟩ := Call.foreach.inj heq
          obtain rfl := Item.timer.inj hnow
          have hfresh : Fresh l 0 := h.start List.mem_cons_self
          exact ⟨hfresh.of_trace rfl rfl, by simp [State.log, readings]⟩
        · simpa [Call.timing] using hcalls _ hc
  | foreach item node =>
    simp only [Loop.step] at hstep
    cases hget : l.handlesCopy[node]? with
    | none =>
      rw [hget] at hstep
      obtain ⟨rfl, rfl⟩ := Prod.mk.inj (Except.ok.inj hstep)
      exact hsame rfl rfl
    | some handle =>
      rw [hget] at hstep
      obtain ⟨rfl, rfl⟩ := Prod.mk.inj (Except.ok.inj hstep)
      cases item with
      | timer now => exact h.walkTimer hget
      | tick => exact h.foreach (by simp)
      | listenerAdd => exact h.foreach (by simp)
      | listenerProcess => exact h.foreach (by simp)
  | setNextRun node now =>
    obtain ⟨rfl, rfl⟩ := Prod.mk.inj (Except.ok.inj hstep)
    refine ⟨h.told, h.known, horder, fun hc => ?_, fun now' k hc => ?_⟩
    · rcases hbefore _ hc with htiming | ⟨_, heq⟩ <;> contradiction
    · -- the node that is written is behind the walk
      obtain ⟨hfresh, hlast⟩ := h.walk now' k (List.mem_cons_of_mem _ hc)
      refine ⟨fun j hj handle hget => ?_, hlast⟩
      have hne : node ≠ j := by
        rcases hbefore _ hc with htiming | ⟨_, heq⟩
        · contradiction
        · have hk := (Call.foreach.inj heq).2
          omega
      change (l.handlesCopy.modify node _)[j]? = some handle at hget
      rw [List.getElem?_modify_ne _ _ hne] at hget
      exact hfresh j hj handle hget
  | select =>
    simp only [Loop.step] at hstep
    split_ifs at hstep
    obtain ⟨rfl, rfl⟩ := Prod.mk.inj (Except.ok.inj hstep)
    exact hsame rfl rfl
  | clear =>
    obtain ⟨rfl, rfl⟩ := Prod.mk.inj (Except.ok.inj hstep)
    refine ⟨h.told, h.known, horder, fun _ => ?_, fun now k hc => ⟨?_, ?_⟩⟩
    · intro k _ handle hget
      simp at hget
    · intro j _ handle hget
      simp at hget
    · exact (h.walk now k (List.mem_cons_of_mem _ hc)).2

/-! ## Runs -/

/-- Some handles are registered, or not, and the loop runs. -/
theorem inv_start (ops : List Op) : Inv (ops.map .op ++ [.loopRun]) init := by
  have hno : ∀ c ∈ ops.map Call.op ++ [.loopRun], c.timing = false := by
    intro c hc
    rcases List.mem_append.mp hc with hc | hc
    · obtain ⟨op, -, rfl⟩ := List.mem_map.mp hc
      rfl
    · rw [List.mem_singleton.mp hc]
      rfl
  refine ⟨told_nil, by simp [init], ?_, fun hc => ?_, fun now node hc => ?_⟩
  · refine List.pairwise_append.mpr ⟨pairwise_ops ops, List.pairwise_singleton _ _, ?_⟩
    intro c hc _ _
    obtain ⟨op, -, rfl⟩ := List.mem_map.mp hc
    trivial
  · simpa [Call.timing] using hno _ hc
  · simpa [Call.timing] using hno _ hc

/-- The first invocation is not before the first deadline, and later ones keep the period. -/
structure Spaced (trace : List Effect) (handle : Pointer) (period_ms : Int) (start : Reading) :
    Prop where
  first : ∀ now ∈ (invocations trace handle).head?, Apart period_ms start now
  later : (invocations trace handle).IsChain (Apart period_ms)

/-- From the first deadline on, successive visits of the timer are a period apart. -/
def RarelyVisited (trace : List Effect) (handle : Pointer) (period_ms : Int) (start : Reading) :
    Prop :=
  (visits trace handle).IsChain fun a b => Apart period_ms start a → Apart period_ms a b

/-- In a sorted list the elements from some bound on are the last ones. -/
theorem isChain_filter_iff {R : Reading → Reading → Prop} {readings : List Reading}
    (hsorted : readings.Pairwise NotLater) :
    (readings.filter fun now => Apart period_ms start now).IsChain R ↔
      readings.IsChain fun a b => Apart period_ms start a → R a b := by
  induction readings with
  | nil => simp
  | cons a readings ih =>
    obtain ⟨hfirst, hrest⟩ := List.pairwise_cons.mp hsorted
    by_cases ha : Apart period_ms start a
    · have hall : readings.filter (fun now => Apart period_ms start now) = readings := by
        refine List.filter_eq_self.mpr fun b hb => decide_eq_true ?_
        exact Int.le_trans ha (hfirst b hb)
      rw [List.filter_cons_of_pos (by simpa using ha), hall, List.isChain_cons, List.isChain_cons,
        ← ih hrest, hall]
      simp [ha]
    · rw [List.filter_cons_of_neg (by simpa using ha), ih hrest, List.isChain_cons]
      simp [ha]

/-- A timer keeps its period exactly when the loop does not get to it more often. -/
theorem spaced_iff (w : World) (ops : List Op)
    (h : Cascade.Reaches (Loop.step w) (ops.map .op ++ [.loopRun]) init calls l)
    (hsorted : (readings l.trace).Pairwise NotLater)
    (hregistered : .registered handle period_ms start ∈ l.trace) :
    Spaced l.trace handle period_ms start ↔ RarelyVisited l.trace handle period_ms start := by
  have hinv : Inv calls l := h.invariant (P := Inv) (fun hs hstep => hs.step hstep) (inv_start ops)
  have hdue := hinv.told.due hregistered
  have hchain : (invocations l.trace handle).IsChain (Apart period_ms) ↔
      RarelyVisited l.trace handle period_ms start := by
    rw [hdue]
    exact isChain_filter_iff (hinv.told.sorted hsorted handle)
  refine ⟨fun hspaced => hchain.mp hspaced.later, fun hrare => ⟨fun now hnow => ?_, hchain.mpr hrare⟩⟩
  rw [hdue] at hnow
  have hmem := List.mem_of_mem_head? hnow
  exact of_decide_eq_true (List.mem_filter.mp hmem).2

/-- The rounds are 300 ms apart, from the first second on; the second invocation ends the loop. -/
def secondWorld : World where
  gettimeofday trace := some <|
    match (readings trace).length with
    | 0 => if trace = [] then ⟨⟨0, 0⟩, by decide⟩ else ⟨⟨1, 0⟩, by decide⟩
    | _ => ⟨⟨1, 300000⟩, by decide⟩
  callback trace := if (invocations trace 0).length = 2 then [.exit] else []
  select _ := true

/-- One timer with a period of a second. -/
def secondTimer : List Call := [Op.registerTimer 7 8 1000].map .op ++ [.loopRun]

theorem secondTimer_ends : ∃ l, Cascade.Reaches (Loop.step secondWorld) secondTimer init [] l ∧
    readings l.trace = [⟨⟨1, 0⟩, by decide⟩, ⟨⟨1, 300000⟩, by decide⟩] ∧
    .registered 0 1000 ⟨⟨0, 0⟩, by decide⟩ ∈ l.trace ∧
    invocations l.trace 0 = [⟨⟨1, 0⟩, by decide⟩, ⟨⟨1, 300000⟩, by decide⟩] := by
  have hrun : Cascade.Exec (Loop.step secondWorld) secondTimer init
      (Cascade.run (Loop.step secondWorld) 40 secondTimer init).state :=
    Cascade.exec_of_isDone (by decide)
  exact ⟨_, (Cascade.exec_iff_ends.mp hrun).1, by decide, by decide, by decide⟩

theorem spaced_iff_secondTimer : ∃ l, Cascade.Reaches (Loop.step secondWorld) secondTimer init [] l ∧
    (Spaced l.trace 0 1000 ⟨⟨0, 0⟩, by decide⟩ ↔ RarelyVisited l.trace 0 1000 ⟨⟨0, 0⟩, by decide⟩) := by
  obtain ⟨l, hrun, hreadings, hregistered, -⟩ := secondTimer_ends
  refine ⟨l, hrun, spaced_iff secondWorld [.registerTimer 7 8 1000] hrun ?_ hregistered⟩
  rw [hreadings]
  refine List.pairwise_pair.mpr ?_
  decide

/-- The timer is invoked again after 300 ms. -/
theorem not_spaced_secondTimer : ¬∀ (w : World) (ops : List Op) (calls : List Call) (l : State)
    (handle : Pointer) (period_ms : Int) (start : Reading),
    Cascade.Reaches (Loop.step w) (ops.map .op ++ [.loopRun]) init calls l →
    (readings l.trace).Pairwise NotLater → .registered handle period_ms start ∈ l.trace →
    Spaced l.trace handle period_ms start := by
  intro h
  obtain ⟨l, hrun, hreadings, hregistered, hinvocations⟩ := secondTimer_ends
  have hsorted : (readings l.trace).Pairwise NotLater := by
    rw [hreadings]
    refine List.pairwise_pair.mpr ?_
    decide
  have hspaced := h secondWorld [.registerTimer 7 8 1000] [] l 0 1000 _ hrun hsorted hregistered
  have hlater := hspaced.later
  rw [hinvocations, List.isChain_pair] at hlater
  revert hlater
  decide

end MyLifeHome.Components.Loop
