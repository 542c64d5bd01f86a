import Mathlib.Combinatorics.SimpleGraph.Acyclic
import Mathlib.Logic.Relation

/-!
# Routing on a tree

What lies behind a neighbour: the vertices that are reached from it without coming back. In a
graph without cycles every other vertex lies behind one neighbour only, the two sides of an edge
have nothing in common, and going on from a neighbour stays behind it.
-/
namespace TreeRouting

open SimpleGraph

variable {V : Type*} {G : SimpleGraph V} {a b c h g k x y : V}

/-- `x` is reached from `g` without entering `h`. -/
def Behind (G : SimpleGraph V) (h g x : V) : Prop :=
  Relation.ReflTransGen (fun a b => G.Adj a b ∧ b ≠ h) g x

theorem Behind.refl : Behind G h g g := Relation.ReflTransGen.refl

theorem Behind.ne (hx : Behind G h g x) (hg : g ≠ h) : x ≠ h := by
  cases hx with
  | refl => exact hg
  | tail _ hstep => exact hstep.2

/-- What is behind a neighbour of `h` is reached without any edge at `h`. -/
theorem Behind.reachable (hx : Behind G h g x) (hg : g ≠ h) :
    (G.deleteEdges {s(h, k)}).Reachable g x := by
  induction hx with
  | refl => exact Reachable.refl g
  | @tail y z hy hstep ih =>
    refine ih.trans (Adj.reachable ?_)
    rw [deleteEdges_adj]
    refine ⟨hstep.1, ?_⟩
    have hyh : y ≠ h := Behind.ne hy hg
    intro hedge
    rw [Set.mem_singleton_iff, Sym2.eq_iff] at hedge
    rcases hedge with ⟨rfl, _⟩ | ⟨_, rfl⟩
    · exact hyh rfl
    · exact hstep.2 rfl

theorem not_reachable (hG : G.IsAcyclic) (hab : G.Adj a b) :
    ¬(G.deleteEdges {s(a, b)}).Reachable a b :=
  isBridge_iff.mp (isAcyclic_iff_forall_adj_isBridge.mp hG hab)

/-- A vertex lies behind one neighbour only. -/
theorem behind_unique (hG : G.IsAcyclic) (hg : G.Adj h g) (hk : G.Adj h k) (hx : Behind G h g x)
    (hy : Behind G h k x) : g = k := by
  by_contra hne
  refine not_reachable hG hg ?_
  have hedge : (G.deleteEdges {s(h, g)}).Adj h k := by
    rw [deleteEdges_adj]
    refine ⟨hk, ?_⟩
    rw [Set.mem_singleton_iff, Sym2.eq_iff]
    rintro (⟨_, rfl⟩ | ⟨rfl, _⟩)
    · exact hne rfl
    · exact G.loopless.irrefl _ hg
  have hkx : (G.deleteEdges {s(h, g)}).Reachable k x := hy.reachable hk.ne.symm
  have hgx : (G.deleteEdges {s(h, g)}).Reachable g x := hx.reachable hg.ne.symm
  exact (hedge.reachable.trans hkx).trans hgx.symm

/-- The two sides of an edge have nothing in common. -/
theorem not_behind_both (hG : G.IsAcyclic) (hab : G.Adj a b) (hx : Behind G a b x)
    (hy : Behind G b a x) : False := by
  refine not_reachable hG hab ?_
  have hback : (G.deleteEdges {s(a, b)}).Reachable a x := by
    rw [Sym2.eq_swap]
    exact hy.reachable hab.ne
  exact hback.trans (hx.reachable hab.ne.symm).symm

/-- Going on from a neighbour stays behind it. -/
theorem Behind.trans (hG : G.IsAcyclic) (hab : G.Adj a b) (hbc : G.Adj b c) (hca : c ≠ a)
    (hx : Behind G b c x) : Behind G a b x := by
  induction hx with
  | refl => exact Relation.ReflTransGen.single ⟨hbc, hca⟩
  | @tail y z hy hstep ih =>
    refine Relation.ReflTransGen.tail ih ⟨hstep.1, ?_⟩
    rintro rfl
    exact hca (behind_unique hG hbc hab.symm (hy.tail hstep) .refl)

/-- Every other vertex lies behind a neighbour. -/
theorem exists_behind (hG : G.Connected) (hxh : x ≠ h) : ∃ g, G.Adj h g ∧ Behind G h g x := by
  have hreach := (reachable_iff_reflTransGen h x).mp (hG.preconnected h x)
  induction hreach with
  | refl => exact absurd rfl hxh
  | @tail y z _ hyz ih =>
    by_cases hyh : y = h
    · subst hyh
      exact ⟨z, hyz, .refl⟩
    · obtain ⟨g, hg, hy⟩ := ih hyh
      exact ⟨g, hg, hy.tail ⟨hyz, hxh⟩⟩

/-- A vertex is on one of the two sides of an edge. -/
theorem behind_or_behind (hG : G.IsTree) (hab : G.Adj a b) :
    Behind G a b x ∨ Behind G b a x := by
  by_cases hxb : x = b
  · rw [hxb]
    exact .inl .refl
  · obtain ⟨c, hbc, hx⟩ := exists_behind hG.connected hxb
    by_cases hca : c = a
    · rw [← hca]
      exact .inr hx
    · exact .inl (hx.trans hG.isAcyclic hab hbc hca)

end TreeRouting
