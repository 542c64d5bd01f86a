import Mathlib.Data.Set.Function
import Mathlib.Data.List.Nodup

/-!
# Reconciling one collection with another

A collection of items, each of them found under its key, is turned into another one by
edits: some keys are deleted, then some items are put. What the collection holds in the
middle of the edits is determined by the edits that remain.
-/
namespace Reconcile

variable {κ α : Type*}

inductive Edit (κ α : Type*) where
  | del (k : κ)
  | post (a : α)
  deriving DecidableEq

def Edit.isPost : Edit κ α → Prop
  | .del _ => False
  | .post _ => True

/-- Edits that make `new` of `old`. What only `old` has is deleted, what only `new` has is
put, and what both have is left alone or deleted and put again. -/
structure Plan (key : α → κ) (old new : Set α) (edits : List (Edit κ α)) : Prop where
  post_mem : ∀ {a}, .post a ∈ edits → a ∈ new
  del : ∀ {a}, a ∈ old → a ∉ new → .del (key a) ∈ edits
  post : ∀ {a}, a ∈ new → a ∉ old → .post a ∈ edits
  again : ∀ {a}, a ∈ old → a ∈ new → (.del (key a) ∈ edits ↔ .post a ∈ edits)
  injOn : Set.InjOn key new
  nodup : edits.Nodup
  order : edits.Pairwise fun e f => e.isPost → f.isPost

/-- What the collection holds when the edits of `rest` remain. -/
def content (key : α → κ) (old new : Set α) (rest : List (Edit κ α)) : Set α :=
  {a | a ∈ old ∧ .del (key a) ∈ rest ∨ a ∈ new ∧ .post a ∉ rest}

variable {key : α → κ} {old new : Set α} {edits done rest : List (Edit κ α)} {a b : α} {k : κ}

@[simp] theorem content_nil : content key old new [] = new := by
  ext a
  simp [content]

theorem Plan.content_self (h : Plan key old new edits) : content key old new edits = old := by
  ext a
  constructor
  · intro ha
    rcases ha with ⟨hold, -⟩ | ⟨hnew, hpost⟩
    · exact hold
    · by_contra hold
      exact hpost (h.post hnew hold)
  · intro hold
    by_cases hnew : a ∈ new
    · by_cases hpost : .post a ∈ edits
      · exact .inl ⟨hold, (h.again hold hnew).mpr hpost⟩
      · exact .inr ⟨hnew, hpost⟩
    · exact .inl ⟨hold, h.del hold hnew⟩

/-- While keys are deleted, an item that is not put any more has never been. -/
theorem Plan.of_post_notMem (h : Plan key old new (done ++ .del k :: rest)) (hnew : a ∈ new)
    (hrest : .post a ∉ rest) : a ∈ old ∧ .post a ∉ done ++ .del k :: rest := by
  have hpost : .post a ∉ done ++ .del k :: rest := by
    intro hmem
    rcases List.mem_append.mp hmem with hdone | htail
    · exact (List.pairwise_append.mp h.order).2.2 _ hdone (.del k) List.mem_cons_self trivial
    · exact hrest (by simpa using htail)
  refine ⟨?_, hpost⟩
  by_contra hold
  exact hpost (h.post hnew hold)

/-- What is there without being about to be deleted is left alone. -/
theorem Plan.left_alone (h : Plan key old new (done ++ .del k :: rest))
    (ha : a ∈ content key old new (.del k :: rest)) (hdel : .del (key a) ∉ Edit.del k :: rest) :
    a ∈ old ∧ a ∈ new ∧ .post a ∉ done ++ .del k :: rest := by
  rcases ha with ⟨_, hmem⟩ | ⟨hnew, hrest⟩
  · contradiction
  · obtain ⟨hold, hpost⟩ := h.of_post_notMem hnew (by simpa using hrest)
    exact ⟨hold, hnew, hpost⟩

/-- A deletion takes away what has the key. -/
theorem Plan.content_del (h : Plan key old new (done ++ .del k :: rest)) :
    a ∈ content key old new rest ↔ a ∈ content key old new (.del k :: rest) ∧ key a ≠ k := by
  by_cases hk : key a = k
  · have hdel : Edit.del k ∉ rest :=
      (List.nodup_cons.mp (List.nodup_append.mp h.nodup).2.1).1
    refine ⟨fun ha => ?_, fun ha => absurd hk ha.2⟩
    exfalso
    rcases ha with ⟨_, hmem⟩ | ⟨hnew, hrest⟩
    · exact hdel (hk ▸ hmem)
    · obtain ⟨hold, hpost⟩ := h.of_post_notMem hnew hrest
      exact hpost ((h.again hold hnew).mp (by simp [hk]))
  · simp [content, hk]

/-- What is put was not there, nor anything else under its key. -/
theorem Plan.key_ne (h : Plan key old new (done ++ .post b :: rest))
    (ha : a ∈ content key old new (.post b :: rest)) : key a ≠ key b := by
  intro hk
  rcases ha with ⟨_, hmem⟩ | ⟨hnew, hrest⟩
  · have horder := List.pairwise_cons.mp (List.pairwise_append.mp h.order).2.1
    exact horder.1 (.del (key a)) (by simpa using hmem) trivial
  · have hb : b ∈ new := h.post_mem (by simp)
    obtain rfl := h.injOn hnew hb hk
    simp at hrest

theorem Plan.content_post (h : Plan key old new (done ++ .post b :: rest)) :
    a ∈ content key old new rest ↔ a = b ∨ a ∈ content key old new (.post b :: rest) := by
  by_cases hab : a = b
  · subst hab
    have hrest : Edit.post a ∉ rest :=
      (List.nodup_cons.mp (List.nodup_append.mp h.nodup).2.1).1
    exact iff_of_true (.inr ⟨h.post_mem (by simp), hrest⟩) (.inl rfl)
  · simp [content, hab]

end Reconcile
