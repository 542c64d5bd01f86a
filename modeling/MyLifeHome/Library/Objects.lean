import Mathlib.Data.List.Basic
import Mathlib.Data.List.Nodup

/-!
# Arrays of objects

Objects of a scripting language are compared by identity. An object is a value with the
number it was allocated under, and an array holds every object at most once.
-/

structure Obj (α : Type*) where
  ref : Nat
  val : α
  deriving DecidableEq

namespace Objects

variable {α : Type*} {array items : List (Obj α)} {x item : Obj α}

/-- `array.splice(array.indexOf(item), 1)`, when the object is there. -/
def removeFromArray (array : List (Obj α)) (item : Obj α) : List (Obj α) :=
  array.eraseP fun x => x.ref = item.ref

/-- The objects have numbers of their own, all below `next`. -/
def Allocated (next : Nat) (array : List (Obj α)) : Prop :=
  (array.map Obj.ref).Nodup ∧ ∀ x ∈ array, x.ref < next

variable {next : Nat}

theorem removeFromArray_sublist : (removeFromArray array item).Sublist array :=
  List.eraseP_sublist

theorem removeAll_sublist : (items.foldl removeFromArray array).Sublist array := by
  induction items generalizing array with
  | nil => exact .refl _
  | cons item items ih => exact ih.trans removeFromArray_sublist

theorem mem_removeFromArray_of_ne (hx : x ∈ array) (h : x.ref ≠ item.ref) :
    x ∈ removeFromArray array item :=
  (List.mem_eraseP_of_neg (by simpa using h)).mpr hx

theorem mem_removeAll_of_ne (hx : x ∈ array) (h : ∀ item ∈ items, x.ref ≠ item.ref) :
    x ∈ items.foldl removeFromArray array := by
  induction items generalizing array with
  | nil => exact hx
  | cons item items ih =>
    obtain ⟨hitem, hitems⟩ := List.forall_mem_cons.mp h
    exact ih (mem_removeFromArray_of_ne hx hitem) hitems

theorem Allocated.sublist {bs : List (Obj α)} (h : Allocated next array) (hs : bs.Sublist array) :
    Allocated next bs :=
  ⟨(hs.map _).nodup h.1, fun x hx => h.2 x (hs.subset hx)⟩

theorem Allocated.eq_of_ref (h : Allocated next array) (hx : x ∈ array) (hi : item ∈ array)
    (href : x.ref = item.ref) : x = item :=
  List.inj_on_of_nodup_map h.1 hx hi href

theorem Allocated.ref_ne_of_mem_remove (h : Allocated next array)
    (hx : x ∈ removeFromArray array item) : x.ref ≠ item.ref := by
  induction array with
  | nil => simp [removeFromArray] at hx
  | cons a array ih =>
    obtain ⟨⟨hnot, hnodup⟩, hlt⟩ : (a.ref ∉ array.map Obj.ref ∧ (array.map Obj.ref).Nodup) ∧ _ :=
      ⟨List.nodup_cons.mp h.1, h.2⟩
    by_cases ha : a.ref = item.ref
    · have hx : x ∈ array := by simpa [removeFromArray, ha] using hx
      intro heq
      exact hnot (List.mem_map.mpr ⟨x, hx, heq.trans ha.symm⟩)
    · have hx : x = a ∨ x ∈ removeFromArray array item := by
        simpa [removeFromArray, ha] using hx
      rcases hx with rfl | hx
      · exact ha
      · exact ih ⟨hnodup, fun y hy => hlt y (List.mem_cons_of_mem _ hy)⟩ hx

/-- None of the objects that are taken out one after another is left. -/
theorem Allocated.ref_ne_of_mem_removeAll (h : Allocated next array) (hitem : item ∈ items)
    (hx : x ∈ items.foldl removeFromArray array) : x.ref ≠ item.ref := by
  induction items generalizing array with
  | nil => simp at hitem
  | cons i items ih =>
    rcases List.mem_cons.mp hitem with rfl | hitem
    · exact h.ref_ne_of_mem_remove (removeAll_sublist.subset hx)
    · exact ih (h.sublist removeFromArray_sublist) hitem hx

theorem Allocated.push (h : Allocated next array) (a : α) :
    Allocated (next + 1) (array ++ [⟨next, a⟩]) := by
  refine ⟨?_, ?_⟩
  · rw [List.map_append]
    refine h.1.append (List.nodup_singleton _) ?_
    intro r hr hnext
    obtain ⟨x, hx, rfl⟩ := List.mem_map.mp hr
    have hlt := h.2 x hx
    have heq : x.ref = next := by simpa using hnext
    omega
  · intro x hx
    rcases List.mem_append.mp hx with hx | hx
    · have hlt := h.2 x hx
      omega
    · have heq : x.ref = next := by simp [List.mem_singleton.mp hx]
      omega

theorem Allocated.mono {later : Nat} (h : Allocated next array) (hle : next ≤ later) :
    Allocated later array :=
  ⟨h.1, fun x hx => Nat.lt_of_lt_of_le (h.2 x hx) hle⟩

/-- The values become objects in order. -/
def alloc : Nat → List α → List (Obj α)
  | _, [] => []
  | next, a :: values => ⟨next, a⟩ :: alloc (next + 1) values

@[simp] theorem map_val_alloc (values : List α) : (alloc next values).map Obj.val = values := by
  induction values generalizing next with
  | nil => rfl
  | cons a values ih => simp [alloc, ih]

theorem map_ref_alloc (values : List α) :
    (alloc next values).map Obj.ref = List.range' next values.length := by
  induction values generalizing next with
  | nil => rfl
  | cons a values ih => simp [alloc, ih, List.range'_succ]

theorem allocated_alloc (values : List α) :
    Allocated (next + values.length) (alloc next values) := by
  refine ⟨by rw [map_ref_alloc]; exact List.nodup_range', ?_⟩
  intro x hx
  have href : x.ref ∈ List.range' next values.length := by
    rw [← map_ref_alloc]
    exact List.mem_map.mpr ⟨x, hx, rfl⟩
  exact (List.mem_range'_1.mp href).2

end Objects
