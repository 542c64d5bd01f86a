import Mathlib.Logic.Relation

/-!
# Runs of a labelled transition relation

A run is a list of events, each taking the state one transition further. The
rules lift a fact about one transition to a run, and `guarded` restricts the
transitions to those whose event meets a condition on the state before it.
-/
namespace Runs

variable {σ α : Type*}

/-- The events of the list, one transition each. -/
inductive Steps (R : σ → α → σ → Prop) : σ → List α → σ → Prop where
  | nil (s : σ) : Steps R s [] s
  | cons {s u v : σ} {a : α} {as : List α} :
      R s a u → Steps R u as v → Steps R s (a :: as) v

variable {R Q : σ → α → σ → Prop} {C : σ → α → Prop} {s u v : σ} {a : α} {as bs : List α}

@[simp] theorem steps_nil_iff : Steps R s [] u ↔ u = s := by
  constructor
  · rintro ⟨⟩
    rfl
  · rintro rfl
    exact .nil u

@[simp] theorem steps_cons_iff : Steps R s (a :: as) v ↔ ∃ u, R s a u ∧ Steps R u as v := by
  constructor
  · rintro ⟨⟩
    exact ⟨_, ‹_›, ‹_›⟩
  · rintro ⟨u, h, g⟩
    exact .cons h g

theorem steps_append_iff :
    Steps R s (as ++ bs) v ↔ ∃ u, Steps R s as u ∧ Steps R u bs v := by
  induction as generalizing s with
  | nil => simp
  | cons a as ih =>
    simp only [List.cons_append, steps_cons_iff, ih]
    constructor
    · rintro ⟨u, h, w, g, k⟩
      exact ⟨w, ⟨u, h, g⟩, k⟩
    · rintro ⟨w, ⟨u, h, g⟩, k⟩
      exact ⟨u, h, w, g, k⟩

theorem Steps.append (h : Steps R s as u) (g : Steps R u bs v) : Steps R s (as ++ bs) v :=
  steps_append_iff.mpr ⟨u, h, g⟩

theorem Steps.snoc (h : Steps R s as u) (g : R u a v) : Steps R s (as ++ [a]) v :=
  h.append (.cons g (.nil v))

theorem Steps.mono (hR : ∀ {s a u}, R s a u → Q s a u) (h : Steps R s as u) : Steps Q s as u := by
  induction h with
  | nil s => exact .nil s
  | cons hs _ ih => exact .cons (hR hs) ih

/-- The invariant rule: what every transition keeps, every run keeps. -/
theorem Steps.invariant {P : σ → Prop} (step : ∀ {s a u}, P s → R s a u → P u)
    (h : Steps R s as u) (hs : P s) : P u := by
  induction h with
  | nil => exact hs
  | cons h _ ih => exact ih (step hs h)

/-- A consequence of each transition, given an invariant, holds all along a run. -/
theorem Steps.and {P : σ → Prop} (step : ∀ {s a u}, P s → R s a u → P u ∧ Q s a u)
    (h : Steps R s as u) (hs : P s) : Steps (fun s a u => R s a u ∧ Q s a u) s as u := by
  induction h with
  | nil s => exact .nil s
  | cons h _ ih => exact .cons ⟨h, (step hs h).2⟩ (ih (step hs h).1)

/-- The transitions whose event meets `C` in the state before it. -/
def guarded (C : σ → α → Prop) (R : σ → α → σ → Prop) (s : σ) (a : α) (u : σ) : Prop :=
  C s a ∧ R s a u

/-- Where the transitions with an outcome `Q` are, under an invariant that they keep,
those whose event meets `C`, the runs with that outcome throughout are the guarded runs. -/
theorem steps_and_iff_guarded {P : σ → Prop}
    (step : ∀ {s a u}, P s → R s a u → Q s a u → P u)
    (h : ∀ {s a u}, P s → R s a u → (Q s a u ↔ C s a)) (hs : P s) :
    Steps (fun s a u => R s a u ∧ Q s a u) s as v ↔ Steps (guarded C R) s as v := by
  induction as generalizing s with
  | nil => simp
  | cons a as ih =>
    simp only [steps_cons_iff, guarded]
    constructor
    · rintro ⟨u, ⟨hR, hQ⟩, hv⟩
      exact ⟨u, ⟨(h hs hR).mp hQ, hR⟩, (ih (step hs hR hQ)).mp hv⟩
    · rintro ⟨u, ⟨hC, hR⟩, hv⟩
      have hQ := (h hs hR).mpr hC
      exact ⟨u, ⟨hR, hQ⟩, (ih (step hs hR hQ)).mpr hv⟩

end Runs
