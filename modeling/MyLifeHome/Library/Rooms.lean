import Mathlib.Data.Set.Basic
import Mathlib.Data.List.Basic

/-!
# Rooms and what is told about them

People with names are in rooms. A listener is told who enters and leaves, who is gone and who has
changed names, and keeps a list for each room that it is in itself. It knows people by name only,
and names that are the same after folding are one name. The rules say which notices keep the lists
right when something happens.
-/
namespace Rooms

variable {ι κ ν φ : Type*}

/-- Who is there, who is in which room, and how they are called. -/
@[ext] structure World (ι κ ν : Type*) where
  present : ι → Prop
  on : ι → κ → Prop
  nick : ι → ν

namespace World

variable (w : World ι κ ν)

def join (u : ι) (k : κ) : World ι κ ν := { w with on := fun x k' => w.on x k' ∨ x = u ∧ k' = k }

def part (u : ι) (k : κ) : World ι κ ν := { w with on := fun x k' => w.on x k' ∧ ¬(x = u ∧ k' = k) }

def remove (u : ι) : World ι κ ν := { w with present := fun x => w.present x ∧ x ≠ u }

def rename [DecidableEq ι] (u : ι) (n : ν) : World ι κ ν :=
  { w with nick := fun x => if x = u then n else w.nick x }

/-- Somebody who is in no room. -/
def add (u : ι) : World ι κ ν := { w with present := fun x => w.present x ∨ x = u }

def Share (u v : ι) : Prop := ∃ k, w.on u k ∧ w.on v k

/-- The names of those in a room. -/
def members (k : κ) : Set ν := {n | ∃ u, w.present u ∧ w.on u k ∧ w.nick u = n}

/-- Those who are there have different names. -/
def Distinct (fold : ν → φ) : Prop :=
  ∀ u v, w.present u → w.present v → fold (w.nick u) = fold (w.nick v) → u = v

/-- Among those who listen, somebody shares rooms only with those who are in this one too. -/
def Confined (listens : ι → Prop) (u : ι) (k : κ) : Prop :=
  ∀ v, w.present v → listens v → v ≠ u → w.Share u v → w.on v k

/-- Somebody who is confined to each room enters them, one after another. -/
def ConfinedJoins (listens : ι → Prop) (u : ι) (w : World ι κ ν) : List κ → Prop
  | [] => True
  | k :: ks => w.Confined listens u k ∧ ConfinedJoins listens u (w.join u k) ks

/-- Somebody who is confined to each room leaves them, one after another. Who listens is in each
at its turn. -/
def ConfinedParts (listens : ι → Prop) (u : ι) (w : World ι κ ν) : List κ → Prop
  | [] => True
  | k :: ks => w.Confined listens u k ∧ (listens u → w.on u k) ∧
      ConfinedParts listens u (w.part u k) ks

/-- The same people in the same rooms under the same names. -/
structure Alike (w w' : World ι κ ν) : Prop where
  present : ∀ u, w'.present u ↔ w.present u
  on : ∀ u, w.present u → ∀ k, w'.on u k ↔ w.on u k
  nick : ∀ u, w.present u → w'.nick u = w.nick u

end World

/-! ## Notices -/

inductive Notice (κ ν : Type*) where
  | welcome (nick : ν)
  | names (room : κ) (nicks : List ν)
  | joined (nick : ν) (room : κ)
  | left (nick : ν) (room : κ)
  | gone (nick : ν)
  | renamed (old new : ν)

/-- Its own name, and the names in the rooms that it is in. -/
structure Listener (κ ν : Type*) where
  nick : Option ν
  rooms : κ → Option (List ν)

namespace Listener

variable [DecidableEq κ] [DecidableEq φ] (fold : ν → φ)

def new : Listener κ ν := ⟨none, fun _ => none⟩

/-- The name is its own one. -/
def Own (l : Listener κ ν) (n : ν) : Prop := l.nick.map fold = some (fold n)

instance (l : Listener κ ν) (n : ν) : Decidable (l.Own fold n) :=
  inferInstanceAs (Decidable (_ = _))

def mapRoom (l : Listener κ ν) (k : κ) (f : List ν → List ν) : Listener κ ν :=
  { l with rooms := Function.update l.rooms k ((l.rooms k).map f) }

def without (n : ν) (nicks : List ν) : List ν := nicks.filter fun m => fold m ≠ fold n

def replace (old new : ν) (nicks : List ν) : List ν :=
  nicks.map fun m => if fold m = fold old then new else m

/-- When it enters a room itself it is told the names in it. -/
def hear (l : Listener κ ν) : Notice κ ν → Listener κ ν
  | .welcome n => { l with nick := some n }
  | .names k nicks => l.mapRoom k (· ++ nicks)
  | .joined n k =>
    if l.Own fold n then { l with rooms := Function.update l.rooms k (some []) }
    else l.mapRoom k (· ++ [n])
  | .left n k =>
    if l.Own fold n then { l with rooms := Function.update l.rooms k none }
    else l.mapRoom k (without fold n)
  | .gone n => { l with rooms := fun k => (l.rooms k).map (without fold n) }
  | .renamed old new =>
    { nick := if l.Own fold old then some new else l.nick
      rooms := fun k => (l.rooms k).map (replace fold old new) }

def hearAll (l : Listener κ ν) (notices : List (Notice κ ν)) : Listener κ ν :=
  notices.foldl (hear fold) l

/-- What is told about a room concerns a room that the listener is in, or enters. -/
def Concerns (l : Listener κ ν) : Notice κ ν → Prop
  | .joined n k => l.Own fold n ∨ (l.rooms k).isSome = true
  | .left _ k => (l.rooms k).isSome = true
  | _ => True

/-- All notices concern it, one after another. -/
def Follows (l : Listener κ ν) : List (Notice κ ν) → Prop
  | [] => True
  | n :: ns => l.Concerns fold n ∧ (l.hear fold n).Follows ns

/-- It is in the rooms of the person, and its lists have the names in them. -/
structure Shows (l : Listener κ ν) (w : World ι κ ν) (v : ι) : Prop where
  nick : l.nick = some (w.nick v)
  inside : ∀ k, w.on v k → ∃ nicks, l.rooms k = some nicks ∧ ∀ n, n ∈ nicks ↔ n ∈ w.members k
  outside : ∀ k, ¬w.on v k → l.rooms k = none

variable {fold} {l : Listener κ ν} {w w' : World ι κ ν} {u v : ι} {k : κ} {n m : ν}
  {ns ms : List (Notice κ ν)}

@[simp] theorem follows_nil : l.Follows fold [] := trivial

theorem follows_append : l.Follows fold (ns ++ ms) ↔
    l.Follows fold ns ∧ (l.hearAll fold ns).Follows fold ms := by
  induction ns generalizing l with
  | nil => simp [Follows, hearAll]
  | cons n ns ih =>
    rw [List.cons_append, Follows, ih, Follows, and_assoc]
    rfl

theorem hearAll_append : l.hearAll fold (ns ++ ms) = (l.hearAll fold ns).hearAll fold ms :=
  List.foldl_append

/-- Nothing that is told about somebody who is gone concerns a room. -/
theorem follows_of_gone (h : ∀ x ∈ ns, ∃ n, x = .gone n) : l.Follows fold ns := by
  induction ns generalizing l with
  | nil => trivial
  | cons x ns ih =>
    obtain ⟨⟨n, rfl⟩, hns⟩ := List.forall_mem_cons.mp h
    exact ⟨trivial, ih hns⟩

theorem mem_without {nicks : List ν} : m ∈ without fold n nicks ↔ m ∈ nicks ∧ fold m ≠ fold n := by
  simp [without]

theorem rooms_mapRoom {f : List ν → List ν} {k' : κ} :
    (l.mapRoom k f).rooms k' = if k' = k then (l.rooms k).map f else l.rooms k' := by
  by_cases h : k' = k
  · simp [mapRoom, h]
  · simp [mapRoom, h]

namespace Shows

omit [DecidableEq κ] in
theorem isSome_iff (h : l.Shows w v) : (l.rooms k).isSome = true ↔ w.on v k := by
  constructor
  · intro hsome
    by_contra hon
    simp [h.outside k hon] at hsome
  · intro hon
    obtain ⟨nicks, hnicks, -⟩ := h.inside k hon
    simp [hnicks]

omit [DecidableEq κ] [DecidableEq φ] in
theorem own_iff (h : l.Shows w v) : l.Own fold n ↔ fold (w.nick v) = fold n := by
  simp [Own, h.nick]

omit [DecidableEq κ] in
/-- It depends on those who are there only. -/
theorem congr (h : l.Shows w v) (hw : w.Alike w') (hv : w.present v) : l.Shows w' v where
  nick := by rw [hw.nick v hv, h.nick]
  inside k hon := by
    obtain ⟨nicks, hnicks, hmem⟩ := h.inside k ((hw.on v hv k).mp hon)
    refine ⟨nicks, hnicks, fun n => (hmem n).trans (exists_congr fun u => ?_)⟩
    rw [hw.present]
    refine and_congr_right fun hu => ?_
    rw [hw.on u hu, hw.nick u hu]
  outside k hon := h.outside k fun hv' => hon ((hw.on v hv k).mpr hv')

end Shows

end Listener

/-! ## The names in a room -/

namespace World

variable {fold : ν → φ} {w : World ι κ ν} {u v : ι} {k k' : κ} {n m : ν}

theorem mem_members_join : n ∈ (w.join u k).members k' ↔
    n ∈ w.members k' ∨ k' = k ∧ w.present u ∧ w.nick u = n := by
  constructor
  · rintro ⟨x, hx, hon | ⟨rfl, rfl⟩, hn⟩
    · exact .inl ⟨x, hx, hon, hn⟩
    · exact .inr ⟨rfl, hx, hn⟩
  · rintro (⟨x, hx, hon, hn⟩ | ⟨rfl, hu, hn⟩)
    · exact ⟨x, hx, .inl hon, hn⟩
    · exact ⟨u, hu, .inr ⟨rfl, rfl⟩, hn⟩

theorem mem_members_part (hd : w.Distinct fold) (hu : w.present u) :
    n ∈ (w.part u k).members k' ↔ n ∈ w.members k' ∧ ¬(k' = k ∧ fold n = fold (w.nick u)) := by
  constructor
  · rintro ⟨x, hx, ⟨hon, hnot⟩, rfl⟩
    refine ⟨⟨x, hx, hon, rfl⟩, fun ⟨hk, hfold⟩ => hnot ⟨?_, hk⟩⟩
    exact hd x u hx hu hfold
  · rintro ⟨⟨x, hx, hon, rfl⟩, hnot⟩
    refine ⟨x, hx, ⟨hon, fun ⟨hxu, hk⟩ => hnot ⟨hk, ?_⟩⟩, rfl⟩
    rw [hxu]

/-- The name is that of nobody else. -/
def Names (w : World ι κ ν) (fold : ν → φ) (n : ν) (u : ι) : Prop :=
  ∀ x, w.present x → (fold (w.nick x) = fold n ↔ x = u)

theorem Distinct.names (hd : w.Distinct fold) (hu : w.present u) (hn : fold n = fold (w.nick u)) :
    w.Names fold n u := by
  intro x hx
  rw [hn]
  exact ⟨hd x u hx hu, fun h => by rw [h]⟩

/-- It stays so when others have gone. -/
theorem Names.remove (hn : w.Names fold n u) : (w.remove v).Names fold n u :=
  fun x hx => hn x hx.1

theorem share_comm : w.Share u v ↔ w.Share v u := exists_congr fun _ => and_comm

/-- Whoever shares rooms after entering one is in it, or shared rooms before. -/
theorem share_join (hne : u ≠ v) : (w.join u k).Share u v ↔ w.Share u v ∨ w.on v k := by
  constructor
  · rintro ⟨k', hu, hv | ⟨hvu, -⟩⟩
    · rcases hu with hu | ⟨-, rfl⟩
      · exact .inl ⟨k', hu, hv⟩
      · exact .inr hv
    · exact absurd hvu.symm hne
  · rintro (⟨k', hu, hv⟩ | hv)
    · exact ⟨k', .inl hu, .inl hv⟩
    · exact ⟨k, .inr ⟨rfl, rfl⟩, .inl hv⟩

/-- Nothing happens when somebody enters a room again. -/
theorem join_eq_self (h : w.on u k) : w.join u k = w := by
  refine World.ext rfl ?_ rfl
  funext x k'
  refine propext ⟨?_, .inl⟩
  rintro (hon | ⟨rfl, rfl⟩)
  · exact hon
  · exact h

/-- Nothing happens when somebody leaves a room without being in it. -/
theorem part_eq_self (h : ¬w.on u k) : w.part u k = w := by
  refine World.ext rfl ?_ rfl
  funext x k'
  refine propext ⟨And.left, fun hon => ⟨hon, ?_⟩⟩
  rintro ⟨rfl, rfl⟩
  exact h hon

theorem Alike.refl : w.Alike w := ⟨fun _ => Iff.rfl, fun _ _ _ => Iff.rfl, fun _ _ => rfl⟩

theorem Alike.trans {w' w'' : World ι κ ν} (h : w.Alike w') (g : w'.Alike w'') : w.Alike w'' where
  present u := (g.present u).trans (h.present u)
  on u hu k := (g.on u ((h.present u).mpr hu) k).trans (h.on u hu k)
  nick u hu := (g.nick u ((h.present u).mpr hu)).trans (h.nick u hu)

theorem Alike.remove {w' : World ι κ ν} (h : w.Alike w') : (w.remove u).Alike (w'.remove u) where
  present v := and_congr_left' (h.present v)
  on v hv := h.on v hv.1
  nick v hv := h.nick v hv.1

theorem present_removeAll {us : List (ι × ν)} :
    (us.foldl (fun w p => w.remove p.1) w).present v ↔ w.present v ∧ ∀ p ∈ us, v ≠ p.1 := by
  induction us generalizing w with
  | nil => simp
  | cons p us ih => rw [List.foldl_cons, ih, List.forall_mem_cons, ← and_assoc, remove]

theorem mem_members_remove (hn : w.Names fold n u) :
    m ∈ (w.remove u).members k ↔ m ∈ w.members k ∧ fold m ≠ fold n := by
  constructor
  · rintro ⟨x, ⟨hx, hne⟩, hon, rfl⟩
    exact ⟨⟨x, hx, hon, rfl⟩, fun hfold => hne ((hn x hx).mp hfold)⟩
  · rintro ⟨⟨x, hx, hon, rfl⟩, hfold⟩
    exact ⟨x, ⟨hx, fun hxu => hfold ((hn x hx).mpr hxu)⟩, hon, rfl⟩

theorem mem_members_rename [DecidableEq ι] [DecidableEq φ] (hn : w.Names fold n u) {new : ν} :
    m ∈ (w.rename u new).members k ↔
      ∃ a ∈ w.members k, (if fold a = fold n then new else a) = m := by
  have hnick : ∀ x, w.present x →
      (w.rename u new).nick x = if fold (w.nick x) = fold n then new else w.nick x := by
    intro x hx
    simp only [rename, hn x hx]
  constructor
  · rintro ⟨x, hx, hon, rfl⟩
    exact ⟨w.nick x, ⟨x, hx, hon, rfl⟩, (hnick x hx).symm⟩
  · rintro ⟨_, ⟨x, hx, hon, rfl⟩, rfl⟩
    exact ⟨x, hx, hon, hnick x hx⟩

end World

/-! ## Hearing what happens -/

namespace Listener.Shows

variable [DecidableEq κ] [DecidableEq φ] {fold : ν → φ} {l : Listener κ ν} {w : World ι κ ν}
  {u v : ι} {k : κ} {n new : ν} {ns : List ν}

omit [DecidableEq κ] [DecidableEq φ] in
theorem not_own (h : l.Shows w v) (hd : w.Distinct fold) (hv : w.present v) (hu : w.present u)
    (hne : u ≠ v) : ¬l.Own fold (w.nick u) := by
  rw [h.own_iff]
  exact fun hfold => hne (hd v u hv hu hfold).symm

/-- Somebody enters a room that it is in. -/
theorem join_other (h : l.Shows w v) (hd : w.Distinct fold) (hv : w.present v)
    (hu : w.present u) (hne : u ≠ v) (hk : w.on v k) :
    (l.hear fold (.joined (w.nick u) k)).Shows (w.join u k) v := by
  simp only [hear, if_neg (h.not_own hd hv hu hne)]
  refine ⟨h.nick, ?_, ?_⟩
  · rintro k' (hon | ⟨rfl, -⟩)
    · obtain ⟨nicks, hnicks, hmem⟩ := h.inside k' hon
      rw [rooms_mapRoom]
      by_cases hkk : k' = k
      · subst hkk
        refine ⟨nicks ++ [w.nick u], by simp [hnicks], fun n => ?_⟩
        simp [World.mem_members_join, hmem, hu, eq_comm]
      · refine ⟨nicks, by rw [if_neg hkk, hnicks], fun n => ?_⟩
        simp [World.mem_members_join, hmem, hkk]
    · exact absurd rfl hne
  · intro k' hon
    have hoff : ¬w.on v k' := fun hon' => hon (.inl hon')
    rw [rooms_mapRoom]
    split_ifs with hkk
    · exact absurd (hkk ▸ hk) hoff
    · exact h.outside k' hoff

omit [DecidableEq κ] in
/-- Somebody enters another room. -/
theorem join_elsewhere (h : l.Shows w v) (hne : u ≠ v) (hk : ¬w.on v k) :
    l.Shows (w.join u k) v := by
  refine ⟨h.nick, ?_, fun k' hon => h.outside k' fun hon' => hon (.inl hon')⟩
  rintro k' (hon | ⟨rfl, -⟩)
  · obtain ⟨nicks, hnicks, hmem⟩ := h.inside k' hon
    have hkk : k' ≠ k := fun hkk => hk (hkk ▸ hon)
    refine ⟨nicks, hnicks, fun n => ?_⟩
    simp [World.mem_members_join, hmem, hkk]
  · exact absurd rfl hne

/-- It enters a room itself, and is told who is there. -/
theorem join_own (h : l.Shows w v) (hns : ∀ n, n ∈ ns ↔ n ∈ (w.join v k).members k) :
    ((l.hear fold (.joined (w.nick v) k)).hear fold (.names k ns)).Shows (w.join v k) v := by
  have hown : l.Own fold (w.nick v) := h.own_iff.mpr rfl
  simp only [hear, if_pos hown]
  refine ⟨h.nick, ?_, ?_⟩
  · intro k' hon
    rw [rooms_mapRoom]
    by_cases hkk : k' = k
    · subst hkk
      exact ⟨ns, by simp, hns⟩
    · have hon : w.on v k' := by
        rcases hon with hon | ⟨-, hkk'⟩
        · exact hon
        · exact absurd hkk' hkk
      obtain ⟨nicks, hnicks, hmem⟩ := h.inside k' hon
      refine ⟨nicks, by simp [hkk, hnicks], fun n => ?_⟩
      simp [World.mem_members_join, hmem, hkk]
  · intro k' hon
    have hkk : k' ≠ k := fun hkk => hon (.inr ⟨rfl, hkk⟩)
    have hout : l.rooms k' = none := h.outside k' fun hon' => hon (.inl hon')
    simp [rooms_mapRoom, hkk, hout]

/-- Somebody leaves a room that it is in. -/
theorem part_other (h : l.Shows w v) (hd : w.Distinct fold) (hv : w.present v)
    (hu : w.present u) (hne : u ≠ v) (hk : w.on v k) :
    (l.hear fold (.left (w.nick u) k)).Shows (w.part u k) v := by
  simp only [hear, if_neg (h.not_own hd hv hu hne)]
  refine ⟨h.nick, ?_, ?_⟩
  · rintro k' ⟨hon, -⟩
    obtain ⟨nicks, hnicks, hmem⟩ := h.inside k' hon
    rw [rooms_mapRoom]
    by_cases hkk : k' = k
    · subst hkk
      refine ⟨without fold (w.nick u) nicks, by simp [hnicks], fun n => ?_⟩
      simp [World.mem_members_part hd hu, mem_without, hmem]
    · refine ⟨nicks, by rw [if_neg hkk, hnicks], fun n => ?_⟩
      simp [World.mem_members_part hd hu, hmem, hkk]
  · intro k' hon
    have hoff : ¬w.on v k' := fun hon' => hon ⟨hon', fun ⟨hvu, _⟩ => hne hvu.symm⟩
    rw [rooms_mapRoom]
    split_ifs with hkk
    · exact absurd (hkk ▸ hk) hoff
    · exact h.outside k' hoff

omit [DecidableEq κ] [DecidableEq φ] in
theorem part_elsewhere (h : l.Shows w v) (hd : w.Distinct fold) (hu : w.present u) (hne : u ≠ v)
    (hk : ¬w.on v k) : l.Shows (w.part u k) v := by
  refine ⟨h.nick, ?_, fun k' hon => h.outside k' fun hon' => hon ⟨hon', fun ⟨hvu, _⟩ => hne hvu.symm⟩⟩
  rintro k' ⟨hon, -⟩
  obtain ⟨nicks, hnicks, hmem⟩ := h.inside k' hon
  have hkk : k' ≠ k := fun hkk => hk (hkk ▸ hon)
  refine ⟨nicks, hnicks, fun n => ?_⟩
  simp [World.mem_members_part hd hu, hmem, hkk]

/-- It leaves a room itself. -/
theorem part_own (h : l.Shows w v) (hd : w.Distinct fold) (hv : w.present v) :
    (l.hear fold (.left (w.nick v) k)).Shows (w.part v k) v := by
  have hown : l.Own fold (w.nick v) := h.own_iff.mpr rfl
  simp only [hear, if_pos hown]
  refine ⟨h.nick, ?_, ?_⟩
  · rintro k' ⟨hon, hnot⟩
    have hkk : k' ≠ k := fun hkk => hnot ⟨rfl, hkk⟩
    obtain ⟨nicks, hnicks, hmem⟩ := h.inside k' hon
    refine ⟨nicks, by simp [hkk, hnicks], fun n => ?_⟩
    simp [World.mem_members_part hd hv, hmem, hkk]
  · intro k' hon
    by_cases hkk : k' = k
    · simp [hkk]
    · have hout : l.rooms k' = none :=
        h.outside k' fun hon' => hon ⟨hon', fun ⟨_, hkk'⟩ => hkk hkk'⟩
      simp [hkk, hout]

/-- It is told that somebody is gone. -/
theorem remove_told (h : l.Shows w v) (hn : w.Names fold n u) :
    (l.hear fold (.gone n)).Shows (w.remove u) v := by
  refine ⟨h.nick, ?_, ?_⟩
  · intro k hon
    obtain ⟨nicks, hnicks, hmem⟩ := h.inside k hon
    refine ⟨without fold n nicks, by simp [hear, hnicks], fun m => ?_⟩
    rw [mem_without, hmem, World.mem_members_remove hn]
  · intro k hon
    simp [hear, h.outside k hon]

omit [DecidableEq κ] in
/-- Somebody is gone whom it shares no room with. -/
theorem remove_untold (h : l.Shows w v) (hshare : ¬w.Share u v) : l.Shows (w.remove u) v := by
  refine ⟨h.nick, fun k hon => ?_, h.outside⟩
  obtain ⟨nicks, hnicks, hmem⟩ := h.inside k hon
  refine ⟨nicks, hnicks, fun n => (hmem n).trans (exists_congr fun x => ?_)⟩
  have hne : w.on x k → x ≠ u := fun hx hxu => hshare ⟨k, hxu ▸ hx, hon⟩
  simp only [World.remove]
  grind

open Classical in
/-- Some are gone, and it is told of those whom it shares rooms with. -/
theorem remove_all {us : List (ι × ν)} (h : l.Shows w v)
    (hn : ∀ p ∈ us, w.Share p.1 v → w.Names fold p.2 p.1) :
    (l.hearAll fold (us.flatMap fun p => if w.Share p.1 v then [.gone p.2] else [])).Shows
      (us.foldl (fun w p => w.remove p.1) w) v := by
  induction us generalizing l w with
  | nil => exact h
  | cons p us ih =>
    obtain ⟨hp, hus⟩ := List.forall_mem_cons.mp hn
    rw [List.flatMap_cons, hearAll_append, List.foldl_cons]
    -- those who are left share the same rooms
    refine ih (w := w.remove p.1) ?_ fun q hq hshare => (hus q hq hshare).remove
    split_ifs with hshare
    · exact h.remove_told (hp hshare)
    · exact h.remove_untold hshare

/-- It is told a new name, perhaps its own. -/
theorem rename_told [DecidableEq ι] (h : l.Shows w v) (hv : w.present v)
    (hn : w.Names fold n u) : (l.hear fold (.renamed n new)).Shows (w.rename u new) v := by
  refine ⟨?_, ?_, ?_⟩
  · have hown : l.Own fold n ↔ v = u := by rw [h.own_iff, hn v hv]
    simp only [hear, World.rename, hown]
    split_ifs
    · rfl
    · exact h.nick
  · intro k hon
    obtain ⟨nicks, hnicks, hmem⟩ := h.inside k hon
    refine ⟨replace fold n new nicks, by simp [hear, hnicks], fun m => ?_⟩
    simp only [replace, List.mem_map, World.mem_members_rename hn, hmem]
  · intro k hon
    simp [hear, h.outside k hon]

section

omit [DecidableEq κ]

/-- Somebody has a new name whom it shares no room with. -/
theorem rename_untold [DecidableEq ι] (h : l.Shows w v) (hne : u ≠ v) (hshare : ¬w.Share u v) :
    l.Shows (w.rename u new) v := by
  refine ⟨?_, fun k hon => ?_, h.outside⟩
  · rw [h.nick]
    simp [World.rename, hne.symm]
  · obtain ⟨nicks, hnicks, hmem⟩ := h.inside k hon
    refine ⟨nicks, hnicks, fun n => (hmem n).trans (exists_congr fun x => ?_)⟩
    have hx : w.on x k → x ≠ u := fun hx hxu => hshare ⟨k, hxu ▸ hx, hon⟩
    simp only [World.rename]
    grind

/-- Somebody new is in no room. -/
theorem add (h : l.Shows w v) (hu : ∀ k, ¬w.on u k) : l.Shows (w.add u) v := by
  refine ⟨h.nick, fun k hon => ?_, h.outside⟩
  obtain ⟨nicks, hnicks, hmem⟩ := h.inside k hon
  refine ⟨nicks, hnicks, fun n => (hmem n).trans (exists_congr fun x => ?_)⟩
  have hx : w.on x k → x ≠ u := fun hx hxu => hu k (hxu ▸ hx)
  simp only [World.add]
  grind

end

/-- One who is in no room knows nothing but its own name. -/
theorem welcome (hv : ∀ k, ¬w.on v k) :
    (Listener.new.hear fold (.welcome (w.nick v)) : Listener κ ν).Shows w v :=
  ⟨rfl, fun k hon => absurd hon (hv k), fun _ _ => rfl⟩

end Listener.Shows

end Rooms

