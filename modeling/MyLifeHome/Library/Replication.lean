import MyLifeHome.Library.TreeRouting
import Mathlib.Data.Set.Function

/-!
# Replicas on a tree

Each vertex of a tree has data, and keeps a view of the data of all vertices. Changes travel as
updates: a vertex writes them to its neighbours, each neighbour reads them in the order in which
they were written, and passes them on. An edge carries updates in one direction only when it is
live. What holds all along is a fact about one edge: who has read all that is written on it has the
same view as the writer of what lies on the writer's side.
-/
namespace Replication

open TreeRouting SimpleGraph

variable {V D A : Type*}

/-- When an update can be made in a view, and what it makes of it. -/
structure Updates (V D A : Type*) where
  fits : A → (V → D) → Prop
  apply : A → (V → D) → V → D

namespace Updates

variable (S : Updates V D A)

/-- One after another. -/
def applyAll (as : List A) (w : V → D) : V → D := as.foldl (fun w a => S.apply a w) w

def FitAll : List A → (V → D) → Prop
  | [], _ => True
  | a :: as, w => S.fits a w ∧ FitAll as (S.apply a w)

/-- The update is about the data of the set alone. -/
structure Local (X : Set V) (a : A) : Prop where
  fits : ∀ {w w'}, Set.EqOn w w' X → S.fits a w → S.fits a w'
  inside : ∀ {w w'}, Set.EqOn w w' X → Set.EqOn (S.apply a w) (S.apply a w') X
  outside : ∀ w, Set.EqOn (S.apply a w) w Xᶜ

variable {S} {X Y : Set V} {a : A} {as bs : List A} {w w' : V → D}

@[simp] theorem applyAll_nil : S.applyAll [] w = w := rfl

@[simp] theorem fitAll_nil : S.FitAll [] w := trivial

theorem applyAll_append : S.applyAll (as ++ bs) w = S.applyAll bs (S.applyAll as w) :=
  List.foldl_append

theorem fitAll_append : S.FitAll (as ++ bs) w ↔ S.FitAll as w ∧ S.FitAll bs (S.applyAll as w) := by
  induction as generalizing w with
  | nil => simp
  | cons a as ih =>
    rw [List.cons_append, FitAll, ih, FitAll, and_assoc]
    rfl

theorem Local.mono (h : S.Local X a) (hXY : X ⊆ Y) : S.Local Y a where
  fits heq := h.fits (heq.mono hXY)
  inside {w w'} heq v hv := by
    by_cases hvX : v ∈ X
    · exact h.inside (heq.mono hXY) hvX
    · rw [h.outside w hvX, h.outside w' hvX, heq hv]
  outside w := (h.outside w).mono (Set.compl_subset_compl.mpr hXY)

/-- What is done to the set does not depend on the rest, and leaves the rest as it is. -/
theorem local_all (h : ∀ a ∈ as, S.Local X a) (heq : Set.EqOn w w' X) :
    (S.FitAll as w → S.FitAll as w') ∧ Set.EqOn (S.applyAll as w) (S.applyAll as w') X := by
  induction as generalizing w w' with
  | nil => exact ⟨id, heq⟩
  | cons a as ih =>
    obtain ⟨ha, has⟩ := List.forall_mem_cons.mp h
    obtain ⟨hfit, hall⟩ := ih has (ha.inside heq)
    exact ⟨fun hw => ⟨ha.fits heq hw.1, hfit hw.2⟩, hall⟩

end Updates

/-! ## Sides of an edge -/

variable {G : SimpleGraph V} {b g k v x : V}

/-- The vertices on the side of the first. -/
def side (G : SimpleGraph V) (b g : V) : Set V := {x | Behind G g b x}

theorem mem_side_self : b ∈ side G b g := .refl

theorem notMem_side (h : b ≠ g) : g ∉ side G b g := fun hg => Behind.ne hg h rfl

/-- What comes on one edge is on the near side of the others. -/
theorem side_subset (hG : G.IsAcyclic) (hbg : G.Adj b g) (hgk : G.Adj g k) (hne : b ≠ k) :
    side G b g ⊆ side G g k := fun _ hx => Behind.trans hG hgk.symm hbg.symm hne hx

theorem side_disjoint (hG : G.IsAcyclic) (hbg : G.Adj b g) (hkg : G.Adj k g) (hne : b ≠ k) :
    side G b g ⊆ (side G k g)ᶜ := fun _ hx hk => hne (behind_unique hG hbg.symm hkg.symm hx hk)

/-- From a vertex outwards, each edge with the vertex on its near side. -/
theorem side_induction {P : V → Prop} (hv : P v)
    (step : ∀ b g, G.Adj b g → v ∈ side G b g → P b → P g) (hG : G.Connected) (g : V) : P g := by
  classical
  obtain ⟨p, hp⟩ := (hG.preconnected g v).exists_isPath
  induction p with
  | nil => exact hv
  | cons hadj q ih =>
    obtain ⟨hq, hnot⟩ := (Walk.cons_isPath_iff hadj q).mp hp
    refine step _ _ hadj.symm ?_ (ih hv step hq)
    -- the rest of the path does not come back
    clear ih hp hq step hadj
    induction q with
    | nil => exact .refl
    | cons hadj q ih =>
      rw [Walk.support_cons, List.mem_cons, not_or] at hnot
      refine Relation.ReflTransGen.head ⟨hadj, ?_⟩ (ih hv hnot.2)
      rintro rfl
      exact hnot.2 q.start_mem_support

/-! ## Consistent replicas -/

variable {S : Updates V D A} {live live' : V → V → Prop} {view : V → V → D}
  {queue queue' : V → V → List A}

/-- Reading all that is written on a live edge brings the reader to what the writer has. -/
structure Consistent (S : Updates V D A) (G : SimpleGraph V) (live : V → V → Prop)
    (view : V → V → D) (queue : V → V → List A) : Prop where
  adj : ∀ b g, live b g → G.Adj b g
  near : ∀ b g, live b g → ∀ a ∈ queue b g, S.Local (side G b g) a
  fits : ∀ b g, live b g → S.FitAll (queue b g) (view g)
  catchUp : ∀ b g, live b g →
    Set.EqOn (S.applyAll (queue b g) (view g)) (view b) (side G b g)

namespace Consistent

/-- What is read next can be read. -/
theorem head (h : Consistent S G live view queue) (hlive : live b g) {a : A} {as : List A}
    (hqueue : queue b g = a :: as) : S.fits a (view g) ∧ S.Local (side G b g) a := by
  have hfits := h.fits b g hlive
  rw [hqueue] at hfits
  exact ⟨hfits.1, h.near b g hlive a (by simp [hqueue])⟩

/-- A vertex has a new view. From some neighbours it has read, to others it has written, and the
new view is what either comes to on the side that it is about. -/
theorem update [DecidableEq V] (h : Consistent S G live view queue) {w : V → D}
    (hin : ∀ k, live k g → ∃ read, queue k g = read ++ queue' k g ∧
      Set.EqOn (S.applyAll read (view g)) w (side G k g))
    (hout : ∀ k, live g k → ∃ written, queue' g k = queue g k ++ written ∧
      (∀ a ∈ written, S.Local (side G g k) a) ∧ S.FitAll written (view g) ∧
      Set.EqOn (S.applyAll written (view g)) w (side G g k))
    (hsame : ∀ k l, k ≠ g → l ≠ g → queue' k l = queue k l) :
    Consistent S G live (Function.update view g w) queue' := by
  have key : ∀ b k, live b k → (∀ a ∈ queue' b k, S.Local (side G b k) a) ∧
      S.FitAll (queue' b k) (Function.update view g w k) ∧
      Set.EqOn (S.applyAll (queue' b k) (Function.update view g w k))
        (Function.update view g w b) (side G b k) := by
    intro b k hlive
    have hne := (h.adj b k hlive).ne
    have hnear := h.near b k hlive
    have hfits := h.fits b k hlive
    have hcatch := h.catchUp b k hlive
    by_cases hb : b = g
    · subst hb
      obtain ⟨written, hqueue, hlocal, hfit, hw⟩ := hout k hlive
      have hlater := Updates.local_all hlocal hcatch.symm
      rw [Function.update_self, Function.update_of_ne hne.symm, hqueue, Updates.fitAll_append,
        Updates.applyAll_append]
      refine ⟨?_, ⟨hfits, hlater.1 hfit⟩, hlater.2.symm.trans hw⟩
      intro a ha
      exact (List.mem_append.mp ha).elim (hnear a) (hlocal a)
    by_cases hk : k = g
    · subst hk
      obtain ⟨read, hqueue, hw⟩ := hin b hlive
      rw [hqueue, Updates.fitAll_append] at hfits
      rw [hqueue, Updates.applyAll_append] at hcatch
      rw [hqueue] at hnear
      have hrest : ∀ a ∈ queue' b k, S.Local (side G b k) a := fun a ha =>
        hnear a (List.mem_append_right read ha)
      have hlater := Updates.local_all hrest hw
      rw [Function.update_self, Function.update_of_ne hne]
      exact ⟨hrest, hlater.1 hfits.2, hlater.2.symm.trans hcatch⟩
    · rw [Function.update_of_ne hb, Function.update_of_ne hk, hsame b k hb hk]
      exact ⟨hnear, hfits, hcatch⟩
  exact ⟨h.adj, fun b k hlive => (key b k hlive).1, fun b k hlive => (key b k hlive).2.1,
    fun b k hlive => (key b k hlive).2.2⟩

/-- An edge becomes live, with all on it that the reader has to catch up with. -/
theorem enliven (h : Consistent S G live view queue) (hadj : G.Adj b g) (hnot : ¬live b g)
    (hlive : ∀ x y, live' x y ↔ live x y ∨ x = b ∧ y = g)
    (hsame : ∀ x y, live x y → queue' x y = queue x y)
    (hnear : ∀ a ∈ queue' b g, S.Local (side G b g) a) (hfits : S.FitAll (queue' b g) (view g))
    (hcatch : Set.EqOn (S.applyAll (queue' b g) (view g)) (view b) (side G b g)) :
    Consistent S G live' view queue' := by
  have key : ∀ x y, live' x y → live x y ∧ queue' x y = queue x y ∨ x = b ∧ y = g := by
    intro x y hxy
    exact ((hlive x y).mp hxy).imp_left fun hold => ⟨hold, hsame x y hold⟩
  refine ⟨?_, ?_, ?_, ?_⟩ <;> intro x y hxy <;>
    rcases key x y hxy with ⟨hold, hqueue⟩ | ⟨rfl, rfl⟩
  · exact h.adj x y hold
  · exact hadj
  · rw [hqueue]
    exact h.near x y hold
  · exact hnear
  · rw [hqueue]
    exact h.fits x y hold
  · exact hfits
  · rw [hqueue]
    exact h.catchUp x y hold
  · exact hcatch

/-! ## Nothing is on the way -/

/-- The last edge of a live path comes from the side on which the path starts. -/
theorem exists_live_behind (h : Consistent S G live view queue)
    (hpath : Relation.ReflTransGen live v g) (hne : v ≠ g) : ∃ k, live k g ∧ v ∈ side G k g := by
  induction hpath using Relation.ReflTransGen.head_induction_on with
  | refl => exact absurd rfl hne
  | @head v u hvu hug ih =>
    by_cases hu : u = g
    · subst hu
      exact ⟨v, hvu, mem_side_self⟩
    · obtain ⟨k, hk, hmem⟩ := ih hu
      exact ⟨k, hk, Relation.ReflTransGen.tail hmem ⟨(h.adj v u hvu).symm, hne⟩⟩

/-- When nothing is on the way, a vertex has the data of those that live edges lead to as they have
them, and nothing of the others. -/
theorem settled (h : Consistent S G live view queue) (hG : G.IsTree) {d : D}
    (hsymm : ∀ b g, live b g → live g b) (hquiet : ∀ b g, live b g → queue b g = [])
    (hdead : ∀ b g, G.Adj b g → ¬live b g → ∀ v ∈ side G b g, view g v = d) (v g : V) :
    (Relation.ReflTransGen live v g → view g v = view v v) ∧
      (¬Relation.ReflTransGen live v g → view g v = d) := by
  refine side_induction (v := v) (P := fun g => (Relation.ReflTransGen live v g → view g v = view v v) ∧
    (¬Relation.ReflTransGen live v g → view g v = d)) ?_ ?_ hG.connected g
  · exact ⟨fun _ => rfl, fun hno => absurd .refl hno⟩
  · rintro b g hadj hmem ⟨hyes, hno⟩
    by_cases hlive : live b g
    · have heq : view g v = view b v := by
        have hcatch := h.catchUp b g hlive hmem
        rwa [hquiet b g hlive] at hcatch
      rw [heq]
      refine ⟨fun hpath => hyes (hpath.tail (hsymm b g hlive)), fun hnone => hno fun hpath => ?_⟩
      exact hnone (hpath.tail hlive)
    · refine ⟨fun hpath => ?_, fun _ => hdead b g hadj hlive v hmem⟩
      have hne : v ≠ g := by
        rintro rfl
        exact notMem_side hadj.ne hmem
      obtain ⟨k, hk, hbehind⟩ := h.exists_live_behind hpath hne
      obtain rfl := behind_unique hG.isAcyclic hadj.symm (h.adj k g hk).symm hmem hbehind
      exact absurd hk hlive

end Consistent

end Replication
