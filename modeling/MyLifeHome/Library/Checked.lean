/-!
# Programs that may be left by an exception

Rules for computations in `Except`: what a sequence that succeeds has done, when it succeeds,
and the rules of a loop over a list, for a loop that has succeeded and for one that is to.
-/
namespace Checked

variable {σ α β ε : Type} {x : Except ε α} {g : α → Except ε β} {b : β} {e : ε}
  {f : σ → α → Except ε σ} {as : List α} {s t : σ}

theorem bind_eq_ok_iff : x >>= g = .ok b ↔ ∃ a, x = .ok a ∧ g a = .ok b := by
  cases x <;> simp [bind, Except.bind]

theorem eq_ok_of_toOption {a : α} (h : x.toOption = some a) : x = .ok a := by
  cases x with
  | error e => simp [Except.toOption] at h
  | ok b => exact congrArg Except.ok (Option.some.inj h)

/-- A check in front of the rest. -/
theorem check_bind_eq_ok_iff {c : Prop} [Decidable c] {k : PUnit → Except ε β} :
    (if c then (throw e : Except ε PUnit) >>= k else k ⟨⟩) = .ok b ↔ ¬c ∧ k ⟨⟩ = .ok b := by
  by_cases h : c <;> simp [h, throw, throwThe, MonadExceptOf.throw, bind, Except.bind]

/-- What every round keeps, a loop that succeeds keeps. -/
theorem foldlM_invariant {I : σ → Prop} (step : ∀ {s a t}, a ∈ as → I s → f s a = .ok t → I t)
    (h : as.foldlM f s = .ok t) (hs : I s) : I t := by
  induction as generalizing s with
  | nil =>
    obtain rfl : s = t := Except.ok.inj h
    exact hs
  | cons a as ih =>
    rw [List.foldlM_cons] at h
    obtain ⟨u, hu, ht⟩ := bind_eq_ok_iff.mp h
    exact ih (fun hb => step (List.mem_cons_of_mem a hb)) ht (step List.mem_cons_self hs hu)

/-- A loop succeeds when each round does, given an invariant over the rounds to come. -/
theorem exists_foldlM {I : List α → σ → Prop}
    (step : ∀ {a as s}, I (a :: as) s → ∃ t, f s a = .ok t ∧ I as t) (hs : I as s) :
    ∃ t, as.foldlM f s = .ok t ∧ I [] t := by
  induction as generalizing s with
  | nil => exact ⟨s, rfl, hs⟩
  | cons a as ih =>
    obtain ⟨u, hu, hI⟩ := step hs
    obtain ⟨t, ht, hnil⟩ := ih hI
    refine ⟨t, ?_, hnil⟩
    rw [List.foldlM_cons]
    exact bind_eq_ok_iff.mpr ⟨u, hu, ht⟩

/-! ## What returns -/

/-- The computation is not left by an exception. -/
def Succeeds (x : Except ε α) : Prop := ∃ a, x = .ok a

theorem succeeds_ok {a : α} : Succeeds (.ok a : Except ε α) := ⟨a, rfl⟩

theorem succeeds_pure {a : α} : Succeeds (pure a : Except ε α) := ⟨a, rfl⟩

theorem Succeeds.bind (h : Succeeds x) (hg : ∀ a, x = .ok a → Succeeds (g a)) :
    Succeeds (x >>= g) := by
  obtain ⟨a, ha⟩ := h
  obtain ⟨b, hb⟩ := hg a ha
  exact ⟨b, bind_eq_ok_iff.mpr ⟨a, ha, hb⟩⟩

/-- A loop returns when each round does in what the rounds before it keep. -/
theorem succeeds_foldlM {I : σ → Prop} (step : ∀ {s a}, a ∈ as → I s → Succeeds (f s a))
    (keep : ∀ {s a t}, a ∈ as → I s → f s a = .ok t → I t) (hs : I s) : Succeeds (as.foldlM f s) := by
  induction as generalizing s with
  | nil => exact succeeds_pure
  | cons a as ih =>
    rw [List.foldlM_cons]
    refine (step List.mem_cons_self hs).bind fun t ht => ?_
    refine ih (fun hb => step (List.mem_cons_of_mem a hb))
      (fun hb => keep (List.mem_cons_of_mem a hb)) ?_
    exact keep List.mem_cons_self hs ht

end Checked
