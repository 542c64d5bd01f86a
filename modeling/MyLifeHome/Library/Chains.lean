import Mathlib.Data.List.Basic
import Mathlib.Data.List.Nodup

/-!
# Chains of cells

Cells that know the next one and the one before represent a sequence. `Linked` says of which; its
rules say what it takes to append a cell and to take one out. A loop over the chain does what it
does over the sequence.
-/
namespace Chains

variable {α σ : Type*}

/-- From `start` on one comes to these cells, and to an end. -/
inductive Leads (next : α → Option α) : Option α → List α → Prop where
  | nil : Leads next none []
  | cons {a : α} {as : List α} : Leads next (next a) as → Leads next (some a) (a :: as)

/-- The chain is the sequence, from both ends. -/
structure Linked (head tail : Option α) (next prev : α → Option α) (xs : List α) : Prop where
  nodup : xs.Nodup
  head : head = xs.head?
  tail : tail = xs.getLast?
  cells : ∀ ps a qs, xs = ps ++ a :: qs → next a = qs.head? ∧ prev a = ps.getLast?

variable {head tail start : Option α} {next prev next' prev' : α → Option α} {xs ys : List α} {a b : α}

theorem Leads.unique (h : Leads next start xs) (g : Leads next start ys) : xs = ys := by
  induction h generalizing ys with
  | nil =>
    cases g
    rfl
  | cons _ ih =>
    cases g with
    | cons g => rw [ih g]

theorem Leads.congr (h : Leads next start xs) (hnext : ∀ a ∈ xs, next' a = next a) :
    Leads next' start xs := by
  induction h with
  | nil => exact .nil
  | cons _ ih =>
    rename_i a as _
    apply Leads.cons
    rw [hnext a List.mem_cons_self]
    exact ih fun b hb => hnext b (List.mem_cons_of_mem a hb)

/-- What each cell says of the next one. -/
theorem leads_of_cells (hcells : ∀ ps a qs, xs = ps ++ a :: qs → next a = qs.head?) :
    Leads next xs.head? xs := by
  induction xs with
  | nil => exact .nil
  | cons a as ih =>
    apply Leads.cons
    rw [hcells [] a as rfl]
    apply ih
    intro ps b qs heq
    exact hcells (a :: ps) b qs (by rw [heq]; rfl)

namespace Linked

theorem leads (h : Linked head tail next prev xs) : Leads next head xs := by
  rw [h.head]
  exact leads_of_cells fun ps a qs heq => (h.cells ps a qs heq).1

theorem leads_reverse (h : Linked head tail next prev xs) : Leads prev tail xs.reverse := by
  rw [h.tail, ← List.head?_reverse]
  apply leads_of_cells
  intro ps a qs heq
  have hxs : xs = qs.reverse ++ a :: ps.reverse := by
    rw [← List.reverse_reverse xs, heq]
    simp
  rw [(h.cells _ _ _ hxs).2, List.getLast?_reverse]

theorem head_eq_none_iff (h : Linked head tail next prev xs) : head = none ↔ xs = [] := by
  rw [h.head, List.head?_eq_none_iff]

theorem tail_eq_none_iff (h : Linked head tail next prev xs) : tail = none ↔ xs = [] := by
  rw [h.tail, List.getLast?_eq_none_iff]

theorem empty : Linked none none next prev [] :=
  ⟨List.nodup_nil, rfl, rfl, by simp⟩

/-- A cell after the last one. -/
theorem snoc [DecidableEq α] (h : Linked head tail next prev xs) (ha : a ∉ xs)
    (hnext : ∀ b, next' b = if tail = some b then some a else if b = a then none else next b)
    (hprev : ∀ b, prev' b = if b = a then tail else prev b) :
    Linked (head.or (some a)) (some a) next' prev' (xs ++ [a]) where
  nodup := by
    apply List.Nodup.append h.nodup (List.nodup_singleton a)
    simpa using ha
  head := by rw [h.head, List.head?_append]; rfl
  tail := by simp
  cells := by
    intro ps b qs heq
    have hne : ∀ c ∈ xs, c ≠ a := fun c hc heq => ha (heq ▸ hc)
    rcases List.eq_nil_or_concat qs with rfl | ⟨qs, c, rfl⟩
    · -- the new cell itself
      obtain ⟨rfl, rfl⟩ : xs = ps ∧ a = b := by simpa using heq
      have hlast : tail ≠ some a := by
        rw [h.tail]
        exact fun hlast => ha (List.mem_of_getLast? hlast)
      rw [hnext, hprev, if_neg hlast, if_pos rfl, if_pos rfl, h.tail]
      exact ⟨rfl, rfl⟩
    · obtain ⟨rfl, rfl⟩ : xs = ps ++ b :: qs ∧ a = c := by
        rw [List.concat_eq_append, ← List.cons_append, ← List.append_assoc] at heq
        simpa using List.append_inj' heq rfl
      obtain ⟨hb, hb'⟩ := h.cells ps b qs rfl
      have hba := hne b (by simp)
      refine ⟨?_, by rw [hprev, if_neg hba, hb']⟩
      cases qs with
      | nil => rw [hnext, h.tail, if_pos (by simp)]; rfl
      | cons q qs =>
        have hlast : tail ≠ some b := by
          rw [h.tail, List.getLast?_append_cons, List.getLast?_cons_cons]
          have hnodup := (List.nodup_append.mp h.nodup).2.1
          exact fun hlast => (List.nodup_cons.mp hnodup).1 (List.mem_of_getLast? hlast)
        rw [hnext, if_neg hlast, if_neg hba, hb]
        rfl

/-- A cell taken out. -/
theorem erase [DecidableEq α] (h : Linked head tail next prev xs) (ha : a ∈ xs)
    (hnext : ∀ b ≠ a, next' b = if prev a = some b then next a else next b)
    (hprev : ∀ b ≠ a, prev' b = if next a = some b then prev a else prev b) :
    Linked (if prev a = none then next a else head) (if next a = none then prev a else tail)
      next' prev' (xs.erase a) := by
  obtain ⟨as, bs, rfl⟩ := List.append_of_mem ha
  obtain ⟨hna, hpa⟩ := h.cells as a bs rfl
  have hnodup := h.nodup
  have herase : (as ++ a :: bs).erase a = as ++ bs := by
    have hnot : a ∉ as := by grind
    rw [List.erase_append_right _ hnot, List.erase_cons_head]
  rw [herase]
  refine ⟨by grind, ?_, ?_, ?_⟩
  · rw [hna, hpa, h.head]
    cases as <;> simp
  · rw [hna, hpa, h.tail]
    cases bs <;> simp
  · intro ps b qs heq
    have hsplit : (∃ cs, ps = as ++ cs ∧ bs = cs ++ b :: qs) ∨
        ∃ cs, as = ps ++ b :: cs ∧ qs = cs ++ bs := by
      rcases List.append_eq_append_iff.mp heq with hright | ⟨cs, has, hcs⟩
      · exact .inl hright
      · cases cs with
        | nil => exact .inl ⟨[], by simpa using has.symm, by simpa using hcs.symm⟩
        | cons c cs =>
          obtain ⟨rfl, hqs⟩ := List.cons.inj hcs
          exact .inr ⟨cs, has, hqs⟩
    rcases hsplit with ⟨cs, rfl, rfl⟩ | ⟨cs, rfl, rfl⟩
    · obtain ⟨hb, hb'⟩ := h.cells (as ++ a :: cs) b qs (by simp)
      have hba : b ≠ a := by grind
      have hlast : prev a ≠ some b := by
        rw [hpa]
        intro hlast
        have hmem := List.mem_of_getLast? hlast
        grind
      rw [hnext b hba, hprev b hba, if_neg hlast, hna, hb, hb']
      refine ⟨rfl, ?_⟩
      cases cs with
      | nil => simp [hpa]
      | cons c cs =>
        have hbc : c ≠ b := by grind
        simp [hbc]
    · obtain ⟨hb, hb'⟩ := h.cells ps b (cs ++ a :: bs) (by simp)
      have hba : b ≠ a := by grind
      have hfirst : next a ≠ some b := by
        rw [hna]
        intro hfirst
        have hmem := List.mem_of_head? hfirst
        grind
      rw [hnext b hba, hprev b hba, if_neg hfirst, hpa, hb, hb']
      refine ⟨?_, rfl⟩
      rcases List.eq_nil_or_concat cs with rfl | ⟨cs, c, rfl⟩
      · simp [hna]
      · have hbc : c ≠ b := by grind
        have hlast : (ps ++ b :: cs.concat c).getLast? ≠ some b := by
          have hwhole : ps ++ b :: cs.concat c = ps ++ b :: cs ++ [c] := by simp
          rw [hwhole, List.getLast?_concat]
          exact fun heq => hbc (Option.some.inj heq)
        rw [if_neg hlast]
        simp

end Linked

/-! ## Loops -/

/-- `for (a = start; a; a = next(a)) if (!body(a)) break;` in at most `n` rounds. The body may write
to the cells. -/
def loop (next : σ → α → Option α) (body : σ → α → σ × Bool) : Nat → Option α → σ → Option σ
  | _, none, s => some s
  | 0, some _, _ => none
  | n + 1, some a, s =>
    match body s a with
    | (s, true) => loop next body n (next s a) s
    | (s, false) => some s

/-- The same over a list. -/
def each (body : σ → α → σ × Bool) : List α → σ → σ
  | [], s => s
  | a :: as, s =>
    match body s a with
    | (s, true) => each body as s
    | (s, false) => s

theorem loop_eq_each {next : σ → α → Option α} {body : σ → α → σ × Bool} {n : Nat} {s : σ}
    (h : Leads (next s) start xs)
    (hbody : ∀ s, ∀ a ∈ xs, ∀ b ∈ xs, next (body s a).1 b = next s b) (hn : xs.length ≤ n) :
    loop next body n start s = some (each body xs s) := by
  induction xs generalizing n start s with
  | nil =>
    cases h
    cases n <;> rfl
  | cons a as ih =>
    obtain - | h := h
    obtain ⟨m, rfl⟩ : ∃ m, n = m + 1 := ⟨n - 1, by grind⟩
    have hsame : ∀ b ∈ a :: as, next (body s a).1 b = next s b := hbody s a List.mem_cons_self
    rw [loop, each]
    rcases hb : body s a with ⟨t, go⟩
    rw [hb] at hsame
    cases go with
    | false => rfl
    | true =>
      apply ih
      · rw [hsame a List.mem_cons_self]
        exact h.congr fun b hb => hsame b (List.mem_cons_of_mem a hb)
      · exact fun s b hb c hc =>
          hbody s b (List.mem_cons_of_mem a hb) c (List.mem_cons_of_mem a hc)
      · grind

end Chains
