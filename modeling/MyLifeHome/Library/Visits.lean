import Mathlib.Data.List.Nodup
import Mathlib.Data.Set.Insert
import Mathlib.Logic.Relation
import Mathlib.Order.Basic

/-!
# Walking down a tree

The nodes below a node, each before its children, as a recursion visits them that goes down a
limited number of times. On a tree in which children come after their parents each node is visited
once.
-/
namespace Visits

variable {α : Type*}

def visits (children : α → List α) : Nat → α → List α
  | 0, _ => []
  | n + 1, a => a :: (children a).flatMap (visits children n)

/-- The recursion comes to an end before its limit. -/
def Deep (children : α → List α) : Nat → α → Prop
  | 0, _ => False
  | n + 1, a => ∀ b ∈ children a, Deep children n b

/-- Each node of the list is a child of one in front of it, or of one of the set. -/
def Rooted (children : α → List α) : Set α → List α → Prop
  | _, [] => True
  | K, a :: l => (∃ p ∈ K, a ∈ children p) ∧ Rooted children (insert a K) l

def Below (children : α → List α) : α → α → Prop :=
  Relation.ReflTransGen fun p c => c ∈ children p

/-- Among these nodes, each is a child once at most, and after its parent. -/
structure Forest [PartialOrder α] (children : α → List α) (P : α → Prop) : Prop where
  closed : ∀ {a b}, P a → b ∈ children a → P b
  nodup : ∀ {a}, P a → (children a).Nodup
  older : ∀ {a b}, P a → b ∈ children a → a < b
  unique : ∀ {a b c}, P a → P b → c ∈ children a → c ∈ children b → a = b

variable {children : α → List α} {a b c : α} {n : Nat} {K K' : Set α} {l l' : List α}

/-! ## What is visited -/

theorem mem_visits_iff (h : Deep children n a) : b ∈ visits children n a ↔ Below children a b := by
  induction n generalizing a with
  | zero => exact h.elim
  | succ n ih =>
    rw [visits, List.mem_cons, List.mem_flatMap]
    constructor
    · rintro (rfl | ⟨c, hc, hb⟩)
      · exact .refl
      · exact .head hc ((ih (h c hc)).mp hb)
    · intro hbelow
      obtain rfl | ⟨c, hc, hb⟩ := Relation.ReflTransGen.cases_head hbelow
      · exact .inl rfl
      · exact .inr ⟨c, hc, (ih (h c hc)).mpr hb⟩

/-- It makes no difference how much further the recursion could have gone. -/
theorem visits_succ (h : Deep children n a) : visits children (n + 1) a = visits children n a := by
  induction n generalizing a with
  | zero => exact h.elim
  | succ n ih =>
    rw [visits, visits, List.flatMap_congr fun b hb => ih (h b hb)]

theorem Rooted.mono (hK : K ⊆ K') (h : Rooted children K l) : Rooted children K' l := by
  induction l generalizing K K' with
  | nil => trivial
  | cons a l ih =>
    obtain ⟨⟨p, hp, ha⟩, hl⟩ := h
    exact ⟨⟨p, hK hp, ha⟩, ih (Set.insert_subset_insert hK) hl⟩

theorem Rooted.append (h : Rooted children K l) (h' : Rooted children K l') :
    Rooted children K (l ++ l') := by
  induction l generalizing K with
  | nil => exact h'
  | cons a l ih =>
    obtain ⟨ha, hl⟩ := h
    exact ⟨ha, ih hl (h'.mono (Set.subset_insert a K))⟩

theorem rooted_flatMap {f : α → List α} (h : ∀ b ∈ l, Rooted children K (f b)) :
    Rooted children K (l.flatMap f) := by
  induction l with
  | nil => trivial
  | cons a l ih =>
    obtain ⟨ha, hl⟩ := List.forall_mem_cons.mp h
    rw [List.flatMap_cons]
    exact ha.append (ih hl)

/-- Parents are visited first. -/
theorem rooted_visits (hK : ∃ p ∈ K, a ∈ children p) : Rooted children K (visits children n a) := by
  induction n generalizing a K with
  | zero => trivial
  | succ n ih =>
    refine ⟨hK, rooted_flatMap fun b hb => ih ⟨a, ?_, hb⟩⟩
    exact Set.mem_insert a K

/-! ## Once each -/

namespace Forest

variable [PartialOrder α] {P : α → Prop}

theorem of_below (h : Forest children P) (ha : P a) (hb : Below children a b) : P b ∧ a ≤ b := by
  induction hb with
  | refl => exact ⟨ha, le_rfl⟩
  | tail _ hc ih => exact ⟨h.closed ih.1 hc, ih.2.trans (h.older ih.1 hc).le⟩

/-- Who is above a node is above its parent. -/
theorem below_or_below (h : Forest children P) (ha : P a) (hb : P b) (hac : Below children a c)
    (hbc : Below children b c) : Below children a b ∨ Below children b a := by
  induction hac with
  | refl => exact .inr hbc
  | @tail c d hac hd ih =>
    obtain rfl | ⟨e, hbe, he⟩ := Relation.ReflTransGen.cases_tail hbc
    · exact .inl (hac.tail hd)
    · obtain rfl := h.unique (h.of_below ha hac).1 (h.of_below hb hbe).1 hd he
      exact ih hbe

/-- Two children have nothing below both. -/
theorem eq_of_below (h : Forest children P) (hc : P c) (ha : a ∈ children c) (hb : b ∈ children c)
    {d : α} (had : Below children a d) (hbd : Below children b d) : a = b := by
  have key : ∀ {a b}, a ∈ children c → b ∈ children c → Below children a b → a = b := by
    intro a b ha hb hab
    obtain rfl | ⟨e, hae, he⟩ := Relation.ReflTransGen.cases_tail hab
    · rfl
    · obtain ⟨hPe, hle⟩ := h.of_below (h.closed hc ha) hae
      obtain rfl := h.unique hPe hc he hb
      exact absurd hle (h.older hc ha).not_ge
  rcases h.below_or_below (h.closed hc ha) (h.closed hc hb) had hbd with hab | hba
  · exact key ha hb hab
  · exact (key hb ha hba).symm

theorem nodup_visits (h : Forest children P) (ha : P a) (hdeep : Deep children n a) :
    (visits children n a).Nodup := by
  induction n generalizing a with
  | zero => exact List.nodup_nil
  | succ n ih =>
    have hmem : ∀ b ∈ children a, ∀ c, c ∈ visits children n b ↔ Below children b c :=
      fun b hb c => mem_visits_iff (hdeep b hb)
    refine List.nodup_cons.mpr ⟨?_, List.nodup_flatMap.mpr ⟨fun b hb => ?_, ?_⟩⟩
    · intro hin
      obtain ⟨b, hb, hab⟩ := List.mem_flatMap.mp hin
      have hle := (h.of_below (h.closed ha hb) ((hmem b hb a).mp hab)).2
      exact absurd hle (h.older ha hb).not_ge
    · exact ih (h.closed ha hb) (hdeep b hb)
    · refine (h.nodup ha).pairwise_of_forall_ne ?_
      intro b hb c hc hne d hd hd'
      exact hne (h.eq_of_below ha hb hc ((hmem b hb d).mp hd) ((hmem c hc d).mp hd'))

end Forest

end Visits
