import Mathlib.Data.List.Basic

/-!
# Passes that mend a structure in place

A structure holds references, some of which may be broken. A pass visits the parts of the structure
one after another, replaces what is broken and reports it; an exception ends it, and what has been
replaced by then stays replaced.
-/
namespace Passes

/-- What a pass leaves of a value, what it reports, and whether an exception ended it. -/
structure Outcome (ε α : Type*) where
  value : α
  errors : List ε
  thrown : Bool

variable {ε α β ρ χ : Type*}

namespace Outcome

def map (f : α → β) (o : Outcome ε α) : Outcome ε β := ⟨f o.value, o.errors, o.thrown⟩

/-- The second pass goes on with what the first leaves, unless this one was ended. -/
def andThen (o : Outcome ε α) (q : α → Outcome ε α) : Outcome ε α :=
  if o.thrown then o else ⟨(q o.value).value, o.errors ++ (q o.value).errors, (q o.value).thrown⟩

end Outcome

/-- A part for which the question has the answer no is replaced. -/
def require (found : Except χ Bool) (cleared : α) (error : ε) (a : α) : Outcome ε α :=
  match found with
  | .error _ => ⟨a, [], true⟩
  | .ok true => ⟨a, [], false⟩
  | .ok false => ⟨cleared, [error], false⟩

def each (p : α → Outcome ε α) : List α → Outcome ε (List α)
  | [] => ⟨[], [], false⟩
  | a :: as =>
    if (p a).thrown then ⟨(p a).value :: as, (p a).errors, true⟩
    else ⟨(p a).value :: (each p as).value, (p a).errors ++ (each p as).errors, (each p as).thrown⟩

/-- Nothing to visit is an exception. -/
def orThrow (p : α → Outcome ε α) : Option α → Outcome ε (Option α)
  | none => ⟨none, [], true⟩
  | some a => (p a).map some

def ifAny (p : α → Outcome ε α) : Option α → Outcome ε (Option α)
  | none => ⟨none, [], false⟩
  | some a => (p a).map some

/-! ## Mending -/

section

/- Of which references it can be told whether they are broken, and what is made of them. -/
variable (answers : ρ → Prop) (fix : ρ → ρ)

/-- The outcome for a value: no exception where the parts are there and their references can be
told, every reference as it is to be, and nothing done where there is nothing to do. -/
structure MendsAt (complete : α → Prop) (refs : α → List ρ) (o : Outcome ε α) (a : α) : Prop where
  thrown : o.thrown = false ↔ complete a ∧ ∀ r ∈ refs a, answers r
  mended : o.thrown = false → refs o.value = (refs a).map fix
  stays : o.thrown = false → complete o.value
  quiet : complete a → (∀ r ∈ refs a, answers r ∧ fix r = r) → o = ⟨a, [], false⟩

def Mends (complete : α → Prop) (refs : α → List ρ) (p : α → Outcome ε α) : Prop :=
  ∀ a, MendsAt answers fix complete refs (p a) a

end

variable {answers : ρ → Prop} {fix : ρ → ρ} {complete complete' : α → Prop}
  {refs refs' : α → List ρ} {p q : α → Outcome ε α} {a : α} {r : ρ} {found : Except χ Bool}
  {cleared : α} {error : ε}

/-- A second time there is nothing to do. -/
theorem Mends.again (hp : Mends answers fix complete refs p)
    (hfix : ∀ r, answers r → answers (fix r) ∧ fix (fix r) = fix r) (ha : (p a).thrown = false) :
    p (p a).value = ⟨(p a).value, [], false⟩ := by
  apply (hp (p a).value).quiet ((hp a).stays ha)
  intro r hr
  rw [(hp a).mended ha] at hr
  obtain ⟨s, hs, rfl⟩ := List.mem_map.mp hr
  exact hfix s (((hp a).thrown.mp ha).2 s hs)

theorem Mends.congr {p' : α → Outcome ε α} (hp : Mends answers fix complete refs p)
    (hcomplete : ∀ a, complete' a ↔ complete a) (hrefs : ∀ a, refs' a = refs a)
    (hpass : ∀ a, p' a = p a) : Mends answers fix complete' refs' p' := by
  intro a
  have ha := hp a
  constructor
  · rw [hpass, hcomplete, hrefs]
    exact ha.thrown
  · rw [hpass, hrefs, hrefs]
    exact ha.mended
  · rw [hpass, hcomplete]
    exact ha.stays
  · rw [hpass, hcomplete, hrefs]
    exact ha.quiet

theorem mendsAt_pure (hcomplete : complete a) (hrefs : refs a = []) :
    MendsAt answers fix complete refs (⟨a, [], false⟩ : Outcome ε α) a where
  thrown := by simp [hcomplete, hrefs]
  mended _ := by simp [hrefs]
  stays _ := hcomplete
  quiet _ _ := rfl

theorem mendsAt_require (hcomplete : complete a) (hrefs : refs a = [r])
    (hanswers : answers r ↔ ∃ b, found = .ok b) (hkeep : found = .ok true → fix r = r)
    (hclear : found = .ok false → complete cleared ∧ refs cleared = [fix r] ∧ fix r ≠ r) :
    MendsAt answers fix complete refs (require found cleared error a) a := by
  cases found with
  | error x =>
    have hnot : ¬answers r := by simp [hanswers]
    constructor <;> simp [require, hrefs, hnot]
  | ok b =>
    have hans : answers r := by simp [hanswers]
    cases b with
    | true => constructor <;> simp [require, hrefs, hans, hcomplete, hkeep rfl]
    | false =>
      obtain ⟨hcleared, hrefs', hne⟩ := hclear rfl
      constructor <;> simp [require, hrefs, hrefs', hans, hcomplete, hcleared, hne]

theorem Mends.each (hp : Mends answers fix complete refs p) :
    Mends answers fix (fun as => ∀ a ∈ as, complete a) (List.flatMap refs) (each p) := by
  intro as
  induction as with
  | nil => exact mendsAt_pure (by simp) rfl
  | cons a as ih =>
    have hthrown := (hp a).thrown
    cases ha : (p a).thrown with
    | true =>
      rw [ha] at hthrown
      constructor
      · simp only [Passes.each, ha, if_true, reduceCtorEq, false_iff, List.forall_mem_cons,
          List.flatMap_cons, List.mem_append]
        rintro ⟨⟨hc, -⟩, hr⟩
        exact absurd (hthrown.mpr ⟨hc, fun r h => hr r (.inl h)⟩) (by simp)
      · simp [Passes.each, ha]
      · simp [Passes.each, ha]
      · intro hc hr
        have hquiet := (hp a).quiet (hc a List.mem_cons_self) fun r h => hr r (by simp [h])
        simp [hquiet] at ha
    | false =>
      rw [ha] at hthrown
      obtain ⟨hc, hr⟩ := hthrown.mp rfl
      constructor
      · simp only [Passes.each, ha, if_false, Bool.false_eq_true, ih.thrown, List.forall_mem_cons,
          List.flatMap_cons, List.mem_append]
        constructor
        · rintro ⟨hcs, hrs⟩
          exact ⟨⟨hc, hcs⟩, fun r h => h.elim (hr r) (hrs r)⟩
        · rintro ⟨⟨-, hcs⟩, hrs⟩
          exact ⟨hcs, fun r h => hrs r (.inr h)⟩
      · intro h
        simp only [Passes.each, ha, if_false, Bool.false_eq_true] at h ⊢
        simp [(hp a).mended ha, ih.mended h]
      · intro h
        simp only [Passes.each, ha, if_false, Bool.false_eq_true] at h ⊢
        exact List.forall_mem_cons.mpr ⟨(hp a).stays ha, ih.stays h⟩
      · intro hcs hrs
        have hquiet := (hp a).quiet hc fun r h => hrs r (by simp [h])
        have hquiets := ih.quiet (fun b h => hcs b (by simp [h])) fun r h => hrs r (by
          simp only [List.flatMap_cons, List.mem_append]
          exact .inr h)
        simp [Passes.each, hquiet, hquiets]

/-- The pass does not touch what another one is about. -/
def Frames (complete : α → Prop) (refs : α → List ρ) (p : α → Outcome ε α) : Prop :=
  ∀ a, (complete (p a).value ↔ complete a) ∧ refs (p a).value = refs a

/-- What replaces a value is the same in every other respect. -/
theorem frames_require {found : α → Except χ Bool} {cleared : α → α} {error : α → ε}
    (hcomplete : ∀ a, complete (cleared a) ↔ complete a) (hrefs : ∀ a, refs (cleared a) = refs a) :
    Frames complete refs fun a => require (found a) (cleared a) (error a) a := by
  intro a
  dsimp only [require]
  split
  · exact ⟨Iff.rfl, rfl⟩
  · exact ⟨Iff.rfl, rfl⟩
  · exact ⟨hcomplete a, hrefs a⟩

theorem Frames.andThen (hp : Frames complete refs p) (hq : Frames complete refs q) :
    Frames complete refs fun a => (p a).andThen q := by
  intro a
  dsimp only [Outcome.andThen]
  split_ifs
  · exact hp a
  · exact ⟨((hq _).1).trans (hp a).1, ((hq _).2).trans (hp a).2⟩

theorem Frames.and (h : Frames complete refs p) (h' : Frames complete' refs' p) :
    Frames (fun a => complete a ∧ complete' a) (fun a => refs a ++ refs' a) p := by
  intro a
  simp only [(h a).1, (h a).2, (h' a).1, (h' a).2, and_self]

theorem Mends.andThen (hp : Mends answers fix complete refs p)
    (hq : Mends answers fix complete' refs' q) (hpq : Frames complete' refs' p)
    (hqp : Frames complete refs q) :
    Mends answers fix (fun a => complete a ∧ complete' a) (fun a => refs a ++ refs' a)
      fun a => (p a).andThen q := by
  intro a
  have hthrown := (hp a).thrown
  have hthrown' := (hq (p a).value).thrown
  rw [(hpq a).1, (hpq a).2] at hthrown'
  cases ha : (p a).thrown with
  | true =>
    rw [ha] at hthrown
    constructor
    · simp only [Outcome.andThen, ha, if_true, List.mem_append, Bool.true_eq_false, false_iff]
      rintro ⟨⟨hc, -⟩, hr⟩
      exact absurd (hthrown.mpr ⟨hc, fun r h => hr r (.inl h)⟩) (by simp)
    · simp [Outcome.andThen, ha]
    · simp [Outcome.andThen, ha]
    · intro hc hr
      have hquiet := (hp a).quiet hc.1 fun r h => hr r (by simp [h])
      simp [hquiet] at ha
  | false =>
    rw [ha] at hthrown
    obtain ⟨hc, hr⟩ := hthrown.mp rfl
    simp only [Outcome.andThen, ha, if_false, Bool.false_eq_true]
    constructor
    · simp only [hthrown', List.mem_append]
      constructor
      · rintro ⟨hc', hr'⟩
        exact ⟨⟨hc, hc'⟩, fun r h => h.elim (hr r) (hr' r)⟩
      · rintro ⟨⟨-, hc'⟩, hr'⟩
        exact ⟨hc', fun r h => hr' r (.inr h)⟩
    · intro h
      simp only [(hqp _).2, (hp a).mended ha, (hq _).mended h, (hpq a).2, List.map_append]
    · intro h
      exact ⟨((hqp _).1).mpr ((hp a).stays ha), (hq _).stays h⟩
    · intro hcs hrs
      have hquiet := (hp a).quiet hc fun r h => hrs r (by simp [h])
      have hquiet' := (hq a).quiet hcs.2 fun r h => hrs r (by simp [h])
      simp [hquiet, hquiet']

/-- A pass over one field; what it reports may depend on the others. -/
theorem Mends.field {complete : β → Prop} {refs : β → List ρ} {p : α → β → Outcome ε β}
    (get : α → β) (set : α → β → α) (hp : ∀ a, Mends answers fix complete refs (p a))
    (hget : ∀ a b, get (set a b) = b) (hset : ∀ a, set a (get a) = a) :
    Mends answers fix (fun a => complete (get a)) (fun a => refs (get a))
      fun a => (p a (get a)).map (set a) := by
  intro a
  have ha := hp a (get a)
  constructor
  · exact ha.thrown
  · intro h
    simpa [Outcome.map, hget] using ha.mended h
  · intro h
    simpa [Outcome.map, hget] using ha.stays h
  · intro hc hr
    simp [ha.quiet hc hr, Outcome.map, hset]

theorem Mends.orThrow (hp : Mends answers fix complete refs p) :
    Mends answers fix (fun x => ∃ a, x = some a ∧ complete a) (fun x => x.elim [] refs)
      (orThrow p) := by
  intro x
  cases x with
  | none => constructor <;> simp [Passes.orThrow]
  | some a =>
    have ha := hp a
    constructor
    · simpa [Passes.orThrow, Outcome.map] using ha.thrown
    · simpa [Passes.orThrow, Outcome.map] using ha.mended
    · simpa [Passes.orThrow, Outcome.map] using ha.stays
    · rintro ⟨a, heq, hc⟩ hr
      cases heq
      simp [Passes.orThrow, Outcome.map, ha.quiet hc hr]

theorem Mends.ifAny (hp : Mends answers fix complete refs p) :
    Mends answers fix (fun x => ∀ a ∈ x, complete a) (fun x => x.elim [] refs) (ifAny p) := by
  intro x
  cases x with
  | none => exact mendsAt_pure (by simp) rfl
  | some a =>
    have ha := hp a
    constructor
    · simpa [Passes.ifAny, Outcome.map] using ha.thrown
    · simpa [Passes.ifAny, Outcome.map] using ha.mended
    · simpa [Passes.ifAny, Outcome.map] using ha.stays
    · intro hc hr
      simp [Passes.ifAny, Outcome.map, ha.quiet (hc a rfl) hr]

/-- What the parts keep, the structure keeps. -/
theorem map_value_each {f : α → β} (hf : ∀ a, f (p a).value = f a) (as : List α) :
    (Passes.each p as).value.map f = as.map f := by
  induction as with
  | nil => rfl
  | cons a as ih =>
    rw [Passes.each]
    split_ifs
    · simp [hf]
    · simp [hf, ih]

theorem value_andThen_of {f : α → β} {o : Outcome ε α} {b : β} (ho : f o.value = b)
    (hq : ∀ a, f (q a).value = f a) : f (o.andThen q).value = b := by
  unfold Outcome.andThen
  split_ifs
  · exact ho
  · exact (hq _).trans ho

end Passes
