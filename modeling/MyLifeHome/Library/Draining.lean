import Mathlib.Algebra.BigOperators.Group.Finset.Basic
import Mathlib.Data.Multiset.DershowitzManna
import Mathlib.Data.Prod.Lex

/-!
# Work that comes to an end

Tokens lie at finitely many places, and each place has a rank. When a token is taken from one place,
any number of tokens may come to places of lower rank. This goes on only finitely often, and so does
what also lets the tokens be whenever it makes a number smaller.
-/
namespace Draining

variable {E : Type*} {places : Finset E} {rank : E → ℕ} {count count' : E → ℕ} {e : E}

/-- The ranks of the tokens. -/
def load (places : Finset E) (rank count : E → ℕ) : Multiset ℕ :=
  ∑ e ∈ places, Multiset.replicate (count e) (rank e)

theorem load_add : load places rank (fun e => count e + count' e) =
    load places rank count + load places rank count' := by
  simp only [load, Multiset.replicate_add, Finset.sum_add_distrib]

theorem mem_load {n : ℕ} : n ∈ load places rank count ↔ ∃ e ∈ places, count e ≠ 0 ∧ n = rank e := by
  simp [load, Multiset.mem_sum, Multiset.mem_replicate]

/-- One token has been taken, and others have come to places of lower rank. -/
theorem load_lt (he : e ∈ places) (htaken : count e = count' e + 1)
    (hlower : ∀ x ∈ places, count x < count' x → rank x < rank e) :
    Multiset.IsDershowitzMannaLT (load places rank count') (load places rank count) := by
  classical
  set stayed : E → ℕ := fun x => min (count x) (count' x) with hstayed
  have hcount' : load places rank count' =
      load places rank stayed + load places rank fun x => count' x - count x := by
    rw [← load_add]
    congr 1
    funext x
    simp only [hstayed]
    omega
  have hcount : load places rank count =
      load places rank stayed + load places rank fun x => count x - count' x := by
    rw [← load_add]
    congr 1
    funext x
    simp only [hstayed]
    omega
  have hgone : rank e ∈ load places rank fun x => count x - count' x :=
    mem_load.mpr ⟨e, he, by omega, rfl⟩
  refine ⟨_, _, _, ?_, hcount', hcount, fun n hn => ⟨rank e, hgone, ?_⟩⟩
  · intro hempty
    rw [hempty] at hgone
    simp at hgone
  · obtain ⟨x, hx, hmore, rfl⟩ := mem_load.mp hn
    exact hlower x hx (by omega)

/-- Work is less when there is less of the first kind, whatever there is then of the second. -/
abbrev Less (a b : ℕ × Multiset ℕ) : Prop := Prod.Lex (· < ·) Multiset.IsDershowitzMannaLT a b

theorem wellFounded_less : WellFounded Less :=
  Nat.lt_wfRel.wf.prod_lex Multiset.wellFounded_isDershowitzMannaLT

theorem Less.trans {a b c : ℕ × Multiset ℕ} (hab : Less a b) (hbc : Less b c) : Less a c := by
  rcases Prod.lex_iff.mp hab with h | ⟨heq, h⟩ <;> rcases Prod.lex_iff.mp hbc with h' | ⟨heq', h'⟩
  · exact Prod.lex_iff.mpr (.inl (lt_trans h h'))
  · exact Prod.lex_iff.mpr (.inl (heq' ▸ h))
  · exact Prod.lex_iff.mpr (.inl (heq ▸ h'))
  · exact Prod.lex_iff.mpr (.inr ⟨heq.trans heq', h.trans h'⟩)

/-- Steps that lead to less each time do not go on for ever. -/
theorem not_forever {σ α : Type*} {r : α → α → Prop} (hwf : WellFounded r) {R : σ → σ → Prop}
    {P : σ → α → Prop} (hstep : ∀ {s s' a}, P s a → R s s' → ∃ a', r a' a ∧ P s' a') {s : σ} {a : α}
    (hs : P s a) (f : ℕ → σ) (hf : f 0 = s) : ¬∀ i, R (f i) (f (i + 1)) := by
  induction a using hwf.induction generalizing s f with
  | _ a ih =>
    intro hR
    subst hf
    obtain ⟨a', hless, hs'⟩ := hstep hs (hR 0)
    exact ih a' hless hs' (fun i => f (i + 1)) rfl fun i => hR (i + 1)

end Draining
