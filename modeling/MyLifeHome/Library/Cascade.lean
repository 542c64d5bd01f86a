import Mathlib.Logic.Relation
import Mathlib.Order.WellFoundedSet

/-!
# Depth-first call machines

A program whose procedures only call one another, never use what a call returns
and are left by the first exception, is a stack of pending calls: performing the
call on top changes the state and puts the calls it makes in front of the rest.
`step` says what one call does, `run` performs a stack with a bound on the number
of calls, and `Exec` is the unbounded big-step relation of the stacks that
complete. The rules at the end carry facts about one call over a whole run.
-/
namespace Cascade

variable {σ τ ε : Type*}

/-- `running` is the answer of a run whose fuel did not suffice. -/
inductive Outcome (σ ε : Type*) where
  | done (s : σ)
  | thrown (e : ε) (s : σ)
  | running (s : σ)

/-- The state a run leaves behind, however it ends. -/
def Outcome.state : Outcome σ ε → σ
  | .done s | .thrown _ s | .running s => s

def Outcome.isDone : Outcome σ ε → Bool
  | .done _ => true
  | .thrown _ _ | .running _ => false

@[simp] theorem Outcome.state_done (s : σ) : (done s : Outcome σ ε).state = s := rfl
@[simp] theorem Outcome.state_thrown (e : ε) (s : σ) : (thrown e s).state = s := rfl
@[simp] theorem Outcome.state_running (s : σ) : (running s : Outcome σ ε).state = s := rfl

variable (step : σ → τ → Except ε (σ × List τ))

/-- Perform a stack of calls, at most `n` of them. -/
def run : Nat → List τ → σ → Outcome σ ε
  | _, [], s => .done s
  | 0, _ :: _, s => .running s
  | n + 1, t :: ts, s =>
    match step s t with
    | .error e => .thrown e s
    | .ok (u, new) => run n (new ++ ts) u

/-- The stack completes: each call returns, and the calls it makes complete before
the next one starts. -/
inductive Exec : List τ → σ → σ → Prop where
  | nil (s : σ) : Exec [] s s
  | cons {t : τ} {ts new : List τ} {s u v w : σ} :
      step s t = .ok (u, new) → Exec new u v → Exec ts v w → Exec (t :: ts) s w

variable {step} {s u v w : σ} {t : τ} {ts us new : List τ} {e : ε} {n m : Nat}

@[simp] theorem run_nil : run step n [] s = .done s := by cases n <;> rfl

theorem run_cons_ok (h : step s t = .ok (u, new)) :
    run step (n + 1) (t :: ts) s = run step n (new ++ ts) u := by simp [run, h]

theorem run_cons_error (h : step s t = .error e) :
    run step (n + 1) (t :: ts) s = .thrown e s := by simp [run, h]

/-- What a completed run of a nonempty stack did first. -/
theorem run_cons_done (h : run step n (t :: ts) s = .done w) :
    ∃ k u new, n = k + 1 ∧ step s t = .ok (u, new) ∧ run step k (new ++ ts) u = .done w := by
  cases n with
  | zero => simp [run] at h
  | succ n =>
    cases hs : step s t with
    | error e => simp [run, hs] at h
    | ok p => exact ⟨n, p.1, p.2, rfl, rfl, by simpa [run, hs] using h⟩

/-- A run that completed with some fuel completes with more. -/
theorem run_mono (h : run step n ts s = .done u) (hm : n ≤ m) : run step m ts s = .done u := by
  induction n generalizing m ts s with
  | zero =>
    cases ts with
    | nil => simpa using h
    | cons t ts => simp [run] at h
  | succ n ih =>
    cases ts with
    | nil => simpa using h
    | cons t ts =>
      obtain ⟨k, v, new, hk, hs, hr⟩ := run_cons_done h
      obtain rfl : n = k := by omega
      obtain ⟨m, rfl⟩ : ∃ j, m = j + 1 := ⟨m - 1, by omega⟩
      rw [run_cons_ok hs]
      exact ih hr (by omega)

/-- Completed runs compose, and their fuels add up. -/
theorem run_append (h : run step n ts s = .done u) (g : run step m us u = .done v) :
    run step (n + m) (ts ++ us) s = .done v := by
  induction n generalizing ts s with
  | zero =>
    cases ts with
    | nil =>
      obtain rfl : s = u := by simpa using h
      simpa using g
    | cons t ts => simp [run] at h
  | succ n ih =>
    cases ts with
    | nil =>
      obtain rfl : s = u := by simpa using h
      exact run_mono g (by omega)
    | cons t ts =>
      obtain ⟨k, w, new, hk, hs, hr⟩ := run_cons_done h
      obtain rfl : n = k := by omega
      rw [show n + 1 + m = (n + m) + 1 by omega, List.cons_append, run_cons_ok hs,
        ← List.append_assoc]
      exact ih hr

/-! ## The big-step relation -/

theorem Exec.single (h : step s t = .ok (u, new)) (hn : Exec step new u v) :
    Exec step [t] s v := .cons h hn (.nil v)

@[simp] theorem exec_nil_iff : Exec step [] s u ↔ u = s := by
  constructor
  · rintro ⟨⟩
    rfl
  · rintro rfl
    exact .nil u

theorem exec_cons_iff : Exec step (t :: ts) s w ↔
    ∃ u new v, step s t = .ok (u, new) ∧ Exec step new u v ∧ Exec step ts v w := by
  constructor
  · rintro ⟨⟩
    exact ⟨_, _, _, ‹_›, ‹_›, ‹_›⟩
  · rintro ⟨u, new, v, hs, hn, ht⟩
    exact .cons hs hn ht

theorem exec_single_iff :
    Exec step [t] s v ↔ ∃ u new, step s t = .ok (u, new) ∧ Exec step new u v := by
  simp [exec_cons_iff]

theorem Exec.append (h : Exec step ts s u) (g : Exec step us u v) :
    Exec step (ts ++ us) s v := by
  induction h with
  | nil => exact g
  | cons hs hn _ _ ih => exact .cons hs hn (ih g)

theorem exec_append_iff :
    Exec step (ts ++ us) s v ↔ ∃ u, Exec step ts s u ∧ Exec step us u v := by
  refine ⟨fun h => ?_, fun ⟨u, h, g⟩ => h.append g⟩
  induction ts generalizing s with
  | nil => exact ⟨s, .nil s, h⟩
  | cons t ts ih =>
    obtain ⟨u, new, w, hs, hn, ht⟩ := exec_cons_iff.mp h
    obtain ⟨x, hx, hv⟩ := ih ht
    exact ⟨x, .cons hs hn hx, hv⟩

/-- A stack has at most one final state. -/
theorem Exec.deterministic (h : Exec step ts s u) (g : Exec step ts s v) : u = v := by
  induction h generalizing v with
  | nil => exact (exec_nil_iff.mp g).symm
  | cons hs _ _ ihn iht =>
    obtain ⟨a, new, b, hs', hn', ht'⟩ := exec_cons_iff.mp g
    rw [hs] at hs'
    obtain ⟨rfl, rfl⟩ := Prod.mk.injEq .. ▸ Except.ok.inj hs'
    obtain rfl := ihn hn'
    exact iht ht'

/-- The stacks that complete are those for which some fuel suffices. -/
theorem exec_iff_run : Exec step ts s u ↔ ∃ n, run step n ts s = .done u := by
  constructor
  · intro h
    induction h with
    | nil s => exact ⟨0, by simp⟩
    | cons hs _ _ ihn iht =>
      obtain ⟨n, hn⟩ := ihn
      obtain ⟨m, hm⟩ := iht
      exact ⟨n + m + 1, by rw [run_cons_ok hs]; exact run_append hn hm⟩
  · rintro ⟨n, h⟩
    induction n generalizing ts s with
    | zero =>
      cases ts with
      | nil => exact exec_nil_iff.mpr (by simpa [eq_comm] using h)
      | cons t ts => simp [run] at h
    | succ n ih =>
      cases ts with
      | nil => exact exec_nil_iff.mpr (by simpa [eq_comm] using h)
      | cons t ts =>
        obtain ⟨k, w, new, hk, hs, hr⟩ := run_cons_done h
        obtain rfl : n = k := by omega
        obtain ⟨x, hx, hv⟩ := exec_append_iff.mp (ih hr)
        exact .cons hs hx hv

/-- A run on a concrete input that is seen to complete. -/
theorem exec_of_isDone (h : (run step n ts s).isDone = true) :
    Exec step ts s (run step n ts s).state := by
  refine exec_iff_run.mpr ⟨n, ?_⟩
  cases hr : run step n ts s with
  | done u => rfl
  | thrown e u => simp [hr, Outcome.isDone] at h
  | running u => simp [hr, Outcome.isDone] at h

/-! ## From one call to a whole run -/

/-- A reflexive and transitive relation that every call respects holds between the
ends of every run, completed or not. -/
theorem run_rel {R : σ → σ → Prop} (refl : ∀ s, R s s)
    (trans : ∀ {s u v}, R s u → R u v → R s v)
    (call : ∀ {s t u new}, step s t = .ok (u, new) → R s u) :
    R s (run step n ts s).state := by
  induction n generalizing ts s with
  | zero => cases ts <;> exact refl s
  | succ n ih =>
    cases ts with
    | nil => exact refl s
    | cons t ts =>
      cases hs : step s t with
      | error e => rw [run_cons_error hs]; exact refl s
      | ok p => rw [run_cons_ok hs]; exact trans (call hs) ih

theorem Exec.rel {R : σ → σ → Prop} (refl : ∀ s, R s s)
    (trans : ∀ {s u v}, R s u → R u v → R s v)
    (call : ∀ {s t u new}, step s t = .ok (u, new) → R s u) (h : Exec step ts s u) : R s u := by
  obtain ⟨n, hn⟩ := exec_iff_run.mp h
  have hr : R s (run step n ts s).state := run_rel refl trans call
  simpa [hn] using hr

/-- Big-step rule with groups: a relation holds between the ends of a stack that completes
when each call of `A` respects it, and each call of `M` taken together with everything it
leads to. -/
theorem Exec.grouped {P : σ → Prop} {R : σ → σ → Prop} {A M : τ → Prop} (refl : ∀ s, R s s)
    (trans : ∀ {s u v}, R s u → R u v → R s v)
    (big : ∀ {s t u}, P s → M t → Exec step [t] s u → P u ∧ R s u)
    (small : ∀ {s t u new}, P s → A t → step s t = .ok (u, new) →
      P u ∧ R s u ∧ ∀ c ∈ new, A c ∨ M c)
    (h : Exec step ts s u) (hs : P s) (ht : ∀ t ∈ ts, A t ∨ M t) : P u ∧ R s u := by
  induction h with
  | nil s => exact ⟨hs, refl s⟩
  | @cons t ts new s u v w hstep hnew _ ihn iht =>
    have hrest : ∀ c ∈ ts, A c ∨ M c := fun c hc => ht c (by simp [hc])
    have hhead : P v ∧ R s v := by
      rcases ht t (by simp) with hA | hM
      · obtain ⟨hu, hsu, hcalls⟩ := small hs hA hstep
        obtain ⟨hv, huv⟩ := ihn hu hcalls
        exact ⟨hv, trans hsu huv⟩
      · exact big hs hM (.single hstep hnew)
    obtain ⟨hw, hvw⟩ := iht hhead.1 hrest
    exact ⟨hw, trans hhead.2 hvw⟩

/-- An invariant of the state, given that every pending call is admissible: a call
keeps both, for itself, for the calls it makes and for the calls that wait. -/
structure Invariant (step : σ → τ → Except ε (σ × List τ)) (P : σ → Prop)
    (A : σ → τ → Prop) : Prop where
  state : ∀ {s t u new}, P s → A s t → step s t = .ok (u, new) → P u
  calls : ∀ {s t u new}, P s → A s t → step s t = .ok (u, new) → ∀ c ∈ new, A u c
  waiting : ∀ {s t u new c}, P s → A s t → step s t = .ok (u, new) → A s c → A u c

theorem Invariant.run {P : σ → Prop} {A : σ → τ → Prop} (inv : Invariant step P A)
    (hs : P s) (ht : ∀ t ∈ ts, A s t) : P (run step n ts s).state := by
  induction n generalizing ts s with
  | zero => cases ts <;> exact hs
  | succ n ih =>
    cases ts with
    | nil => exact hs
    | cons t ts =>
      cases h : step s t with
      | error e => rw [run_cons_error h]; exact hs
      | ok p =>
        obtain ⟨u, new⟩ := p
        have ha : A s t := ht t (by simp)
        rw [run_cons_ok h]
        refine ih (inv.state hs ha h) fun c hc => ?_
        rcases List.mem_append.mp hc with hc | hc
        · exact inv.calls hs ha h c hc
        · exact inv.waiting hs ha h (ht c (by simp [hc]))

theorem Invariant.exec {P : σ → Prop} {A : σ → τ → Prop} (inv : Invariant step P A)
    (h : Exec step ts s u) (hs : P s) (ht : ∀ t ∈ ts, A s t) : P u := by
  obtain ⟨n, hn⟩ := exec_iff_run.mp h
  simpa [hn] using inv.run (n := n) hs ht

/-! ## The calls that are left -/

/-- Some calls of the stack have been performed: from `ts` in `s` to `us` in `u`. -/
inductive Reaches (step : σ → τ → Except ε (σ × List τ)) :
    List τ → σ → List τ → σ → Prop where
  | refl (ts : List τ) (s : σ) : Reaches step ts s ts s
  | call {t : τ} {ts us new : List τ} {s u v : σ} :
      step s t = .ok (u, new) → Reaches step (new ++ ts) u us v → Reaches step (t :: ts) s us v

/-- The rule for facts about the state and the calls that are left. -/
theorem Reaches.invariant {P : List τ → σ → Prop}
    (call : ∀ {t ts s u new}, P (t :: ts) s → step s t = .ok (u, new) → P (new ++ ts) u)
    (h : Reaches step ts s us u) (hs : P ts s) : P us u := by
  induction h with
  | refl => exact hs
  | call hstep _ ih => exact ih (call hs hstep)

theorem Reaches.rel {R : σ → σ → Prop} (refl : ∀ s, R s s)
    (trans : ∀ {s u v}, R s u → R u v → R s v)
    (call : ∀ {s t u new}, step s t = .ok (u, new) → R s u) (h : Reaches step ts s us u) :
    R s u := by
  induction h with
  | refl ts s => exact refl s
  | call hstep _ ih => exact trans (call hstep) ih

theorem Reaches.trans (h : Reaches step ts s us u) (g : Reaches step us u vs v) :
    Reaches step ts s vs v := by
  induction h with
  | refl => exact g
  | call hstep _ ih => exact .call hstep (ih g)

theorem Reaches.append (h : Reaches step ts s us u) (vs : List τ) :
    Reaches step (ts ++ vs) s (us ++ vs) u := by
  induction h with
  | refl => exact .refl ..
  | call hstep _ ih =>
    rw [List.append_assoc] at ih
    exact .call hstep ih

/-- Of two points of a run, one comes after the other. -/
theorem Reaches.total (h : Reaches step ts s us u) (g : Reaches step ts s vs v) :
    Reaches step us u vs v ∨ Reaches step vs v us u := by
  induction h with
  | refl => exact .inl g
  | call hstep hrest ih =>
    cases g with
    | refl => exact .inr (.call hstep hrest)
    | call hstep' hrest' =>
      rw [hstep] at hstep'
      obtain ⟨rfl, rfl⟩ := Prod.mk.injEq .. ▸ Except.ok.inj hstep'
      exact ih hrest'

/-- The stack has come to an end: `us` is what an exception has left of it. -/
def Ends (step : σ → τ → Except ε (σ × List τ)) (ts : List τ) (s : σ) (us : List τ) (u : σ) :
    Prop := Reaches step ts s us u ∧ ∀ t ∈ us.head?, ∃ e, step u t = .error e

/-- A stack that completes does so from wherever its calls have got. -/
theorem Exec.of_reaches (h : Exec step ts s v) (g : Reaches step ts s us u) :
    Exec step us u v := by
  refine g.invariant (P := fun ts s => Exec step ts s v) (fun h hs => ?_) h
  obtain ⟨a, new, b, hs', hn, ht⟩ := exec_cons_iff.mp h
  rw [hs] at hs'
  obtain ⟨rfl, rfl⟩ := Prod.mk.injEq .. ▸ Except.ok.inj hs'
  exact hn.append ht

theorem Ends.eq_nil (g : Ends step ts s us u) (h : Exec step ts s v) : us = [] := by
  have hrest := h.of_reaches g.1
  cases us with
  | nil => rfl
  | cons t us =>
    obtain ⟨e, he⟩ := g.2 t rfl
    obtain ⟨a, new, b, hs, _⟩ := exec_cons_iff.mp hrest
    rw [he] at hs
    contradiction

/-- Nothing is left of a stack that completes. -/
theorem exec_iff_ends : Exec step ts s u ↔ Ends step ts s [] u := by
  simp only [Ends, List.head?_nil, Option.not_mem_none, false_imp_iff, implies_true, and_true]
  constructor
  · intro h
    obtain ⟨n, hn⟩ := exec_iff_run.mp h
    induction n generalizing ts s with
    | zero =>
      cases ts with
      | nil =>
        obtain rfl : s = u := by simpa using hn
        exact .refl [] s
      | cons t ts => simp [run] at hn
    | succ n ih =>
      cases ts with
      | nil =>
        obtain rfl : s = u := by simpa using hn
        exact .refl [] s
      | cons t ts =>
        obtain ⟨k, v, new, hk, hs, hr⟩ := run_cons_done hn
        obtain rfl : n = k := by omega
        exact .call hs (ih (exec_iff_run.mpr ⟨n, hr⟩) hr)
  · intro h
    generalize hus : ([] : List τ) = us at h
    induction h with
    | refl ts s =>
      subst hus
      exact .nil s
    | call hs _ ih =>
      obtain ⟨w, hn, ht⟩ := exec_append_iff.mp (ih hus)
      exact .cons hs hn ht

theorem Exec.reaches (h : Exec step ts s u) : Reaches step ts s [] u := (exec_iff_ends.mp h).1

/-- From some point of the run on, `P` holds: at its end if it has one. -/
def Settles (step : σ → τ → Except ε (σ × List τ)) (ts : List τ) (s : σ) (P : σ → Prop) : Prop :=
  ∃ us u, Reaches step ts s us u ∧ ∀ vs v, Reaches step us u vs v → P v

theorem Settles.exec {P : σ → Prop} (h : Settles step ts s P) (g : Exec step ts s v) : P v := by
  obtain ⟨us, u, hu, hall⟩ := h
  exact hall _ _ (g.of_reaches hu).reaches

/-- What a run comes to holds at some point after any other. -/
theorem Settles.after {P : σ → Prop} (h : Settles step ts s P) (g : Reaches step ts s us u) :
    ∃ vs v, Reaches step us u vs v ∧ P v := by
  obtain ⟨ws, w, hw, hall⟩ := h
  rcases g.total hw with hgw | hwg
  · exact ⟨ws, w, hgw, hall ws w (.refl ws w)⟩
  · exact ⟨us, u, .refl us u, hall us u hwg⟩

/-! ## Termination -/

/-- The stack comes to an end, by itself or by an exception. -/
def Halts (step : σ → τ → Except ε (σ × List τ)) (ts : List τ) (s : σ) : Prop :=
  ∃ us u, Ends step ts s us u

theorem halts_nil (s : σ) : Halts step [] s := ⟨[], s, .refl [] s, by simp⟩

theorem halts_of_error (h : step s t = .error e) : Halts step (t :: ts) s :=
  ⟨t :: ts, s, .refl _ s, by simpa using ⟨e, h⟩⟩

theorem Halts.call (h : Halts step (new ++ ts) u) (hstep : step s t = .ok (u, new)) :
    Halts step (t :: ts) s := by
  obtain ⟨us, v, hreach, hend⟩ := h
  exact ⟨us, v, .call hstep hreach, hend⟩

/-- A stack halts when every call makes calls below it only, in a well-founded order. -/
theorem halts_of_descends {R : τ → τ → Prop} {P : σ → Prop} {A : τ → Prop} (hR : WellFounded R)
    (hstep : ∀ {s t u new}, P s → A t → step s t = .ok (u, new) →
      P u ∧ ∀ c ∈ new, A c ∧ R c t)
    (hs : P s) (hts : ∀ t ∈ ts, A t) : Halts step ts s := by
  have hlist : ∀ {cs ts : List τ}, (∀ c ∈ cs, ∀ {ts}, (∀ v, P v → Halts step ts v) →
      ∀ s, P s → Halts step (c :: ts) s) → (∀ v, P v → Halts step ts v) →
      ∀ s, P s → Halts step (cs ++ ts) s := by
    intro cs ts hcs hrest
    induction cs with
    | nil => exact hrest
    | cons c cs ih =>
      have htail := ih fun d hd => hcs d (List.mem_cons_of_mem c hd)
      exact hcs c List.mem_cons_self htail
  have hcall : ∀ t, A t → ∀ {ts}, (∀ v, P v → Halts step ts v) → ∀ s, P s →
      Halts step (t :: ts) s := by
    intro t
    induction t using hR.induction with
    | _ t ih =>
      intro ht ts hrest s hs
      cases h : step s t with
      | error e => exact halts_of_error h
      | ok p =>
        obtain ⟨u, new⟩ := p
        obtain ⟨hu, hnew⟩ := hstep hs ht h
        have hbelow := hlist (fun c hc => ih c (hnew c hc).2 (hnew c hc).1) hrest
        exact (hbelow u hu).call h
  have hall := hlist (fun c hc => hcall c (hts c hc)) fun v _ => halts_nil v
  simpa using hall s hs

/-- Where finitely many elements have a successor and there is no cycle, nothing goes on forever. -/
theorem wellFounded_of_acyclic {α : Type*} {R : α → α → Prop} (hfinite : {a | ∃ b, R a b}.Finite)
    (h : ∀ a, ¬Relation.TransGen R a a) : WellFounded fun b a => R a b := by
  let after : α → α → Prop := fun b a => Relation.TransGen R a b
  have hstrict : IsStrictOrder α after := {
    irrefl := h
    trans := fun _ _ _ hab hbc => hbc.trans hab }
  have hwf : {a | ∃ b, R a b}.WellFoundedOn after := hfinite.wellFoundedOn
  have hout : ∀ a, (¬∃ b, R a b) → Acc (fun b a => R a b) a :=
    fun a ha => ⟨a, fun b hb => absurd ⟨b, hb⟩ ha⟩
  refine ⟨fun a => ?_⟩
  by_cases ha : ∃ b, R a b
  · refine hwf.induction ha fun a _ ih => ⟨a, fun b hb => ?_⟩
    by_cases hsucc : ∃ c, R b c
    · exact ih b hsucc (.single hb)
    · exact hout b hsucc
  · exact hout a ha

end Cascade
