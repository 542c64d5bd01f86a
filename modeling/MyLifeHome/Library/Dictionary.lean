import Mathlib.Data.List.Basic
import Mathlib.Data.List.Induction
import Mathlib.Data.List.Nodup

/-!
# Dictionaries with the keys in order of first insertion

An object of a scripting language used as a dictionary: reading an absent key
gives nothing, writing keeps the place of a key that is there and appends one
that is not, and an enumeration visits the keys in that order. The distinctness
of the keys is part of the type.
-/

/-- Associations with distinct keys, oldest first. -/
structure Dictionary (κ α : Type*) where
  entries : List (κ × α)
  nodup : (entries.map Prod.fst).Nodup

namespace Dictionary

variable {κ α : Type*}

@[ext] theorem ext {d e : Dictionary κ α} (h : d.entries = e.entries) : d = e := by
  cases d; cases e; simp_all

def empty : Dictionary κ α := ⟨[], by simp⟩

def keys (d : Dictionary κ α) : List κ := d.entries.map Prod.fst

def values (d : Dictionary κ α) : List α := d.entries.map Prod.snd

theorem nodup_keys (d : Dictionary κ α) : d.keys.Nodup := d.nodup

@[simp] theorem keys_empty : (empty : Dictionary κ α).keys = [] := rfl

variable [DecidableEq κ]

def get (d : Dictionary κ α) (k : κ) : Option α :=
  (d.entries.find? fun e => e.1 = k).map Prod.snd

theorem keys_replace (es : List (κ × α)) (k : κ) (a : α) :
    (es.map fun e => if e.1 = k then (k, a) else e).map Prod.fst = es.map Prod.fst := by
  induction es with
  | nil => rfl
  | cons e es ih =>
    simp only [List.map_cons, ih]
    split_ifs with h <;> simp [h]

/-- `d[k] = a` -/
def set (d : Dictionary κ α) (k : κ) (a : α) : Dictionary κ α :=
  if h : k ∈ d.keys then
    ⟨d.entries.map fun e => if e.1 = k then (k, a) else e, by rw [keys_replace]; exact d.nodup⟩
  else
    ⟨d.entries ++ [(k, a)], by
      rw [List.map_append]
      exact d.nodup.append (by simp) (by simpa [keys] using h)⟩

/-- `delete d[k]` -/
def erase (d : Dictionary κ α) (k : κ) : Dictionary κ α :=
  ⟨d.entries.filter fun e => e.1 ≠ k, (List.filter_sublist.map _).nodup d.nodup⟩

variable {d : Dictionary κ α} {k l : κ} {a b : α}

@[simp] theorem get_empty : (empty : Dictionary κ α).get k = none := rfl

/-- Reading a key finds its only entry. -/
theorem get_eq_some_iff : d.get k = some a ↔ (k, a) ∈ d.entries := by
  obtain ⟨es, h⟩ := d
  simp only [get]
  induction es with
  | nil => simp
  | cons e es ih =>
    obtain ⟨l, b⟩ := e
    simp only [List.map_cons, List.nodup_cons] at h
    by_cases hk : l = k
    · subst hk
      have hmem : (l, a) ∉ es := fun hm => h.1 (List.mem_map.mpr ⟨_, hm, rfl⟩)
      simp [hmem, eq_comm]
    · simp [hk, ih h.2, Ne.symm hk]

theorem get_isSome_iff : (d.get k).isSome ↔ k ∈ d.keys := by
  simp [get, keys]

theorem get_eq_none_iff : d.get k = none ↔ k ∉ d.keys := by
  rw [← get_isSome_iff]
  simp

theorem mem_values_iff : a ∈ d.values ↔ ∃ k, d.get k = some a := by
  simp [values, get_eq_some_iff]

theorem mem_map_values_iff {β : Type*} {f : α → β} {b : β} :
    b ∈ d.values.map f ↔ ∃ k, (d.get k).map f = some b := by
  simp only [List.mem_map, mem_values_iff, Option.map_eq_some_iff]
  constructor
  · intro ⟨a, ⟨k, hk⟩, hf⟩
    exact ⟨k, a, hk, hf⟩
  · intro ⟨k, a, hk, hf⟩
    exact ⟨a, ⟨k, hk⟩, hf⟩

@[simp] theorem mem_keys_set : l ∈ (d.set k a).keys ↔ l = k ∨ l ∈ d.keys := by
  unfold set
  split_ifs with h
  · simp only [keys, keys_replace]
    constructor
    · exact .inr
    · rintro (rfl | h')
      · exact h
      · exact h'
  · simp [keys, or_comm]

@[simp] theorem get_set_self : (d.set k a).get k = some a := by
  rw [get_eq_some_iff]
  unfold set
  split_ifs with h
  · obtain ⟨e, he, rfl⟩ := List.mem_map.mp h
    exact List.mem_map.mpr ⟨e, he, by simp⟩
  · simp

theorem get_set_of_ne (h : l ≠ k) : (d.set k a).get l = d.get l := by
  ext b
  rw [get_eq_some_iff, get_eq_some_iff]
  unfold set
  split_ifs
  · simp only [List.mem_map, Prod.exists]
    constructor
    · rintro ⟨m, c, hm, he⟩
      split_ifs at he with hmk
      · simp_all
      · exact he ▸ hm
    · intro hm
      exact ⟨l, b, hm, by simp [h]⟩
  · simp [h]

theorem get_set : (d.set k a).get l = if l = k then some a else d.get l := by
  split_ifs with h
  · rw [h, get_set_self]
  · exact get_set_of_ne h

@[simp] theorem mem_entries_erase {e : κ × α} :
    e ∈ (d.erase k).entries ↔ e ∈ d.entries ∧ e.1 ≠ k := by
  simp [erase]

theorem get_erase : (d.erase k).get l = if l = k then none else d.get l := by
  ext b
  rw [get_eq_some_iff, mem_entries_erase, ← get_eq_some_iff]
  split_ifs with h <;> simp [h]

@[simp] theorem get_erase_self : (d.erase k).get k = none := by simp [get_erase]

theorem get_erase_of_ne (h : l ≠ k) : (d.erase k).get l = d.get l := by simp [get_erase, h]

@[simp] theorem mem_keys_erase : l ∈ (d.erase k).keys ↔ l ∈ d.keys ∧ l ≠ k := by
  rw [← get_isSome_iff, get_erase, ← get_isSome_iff]
  split_ifs with h <;> simp [h]

theorem erase_eq_self (h : d.get k = none) : d.erase k = d := by
  rw [get_eq_none_iff] at h
  apply ext
  refine List.filter_eq_self.mpr fun e he => ?_
  have hne : e.1 ≠ k := by
    rintro rfl
    exact h (List.mem_map_of_mem he)
  simpa using hne

theorem keys_eq_nil_iff : d.keys = [] ↔ ∀ k, d.get k = none := by
  simp only [List.eq_nil_iff_forall_not_mem, get_eq_none_iff]

/-- A loop over keys that erases `g k` when it finds `k`. -/
theorem get_foldl_erase {σ : Type*} {f : σ → κ → σ} (reg : σ → Dictionary κ α) (g : κ → κ)
    (hg : ∀ k, g (g k) = g k)
    (hf : ∀ s k, reg (f s k) = if ((reg s).get k).isSome then (reg s).erase (g k) else reg s)
    {ks : List κ} {s : σ} (hks : ∀ k ∈ ks, ((reg s).get k).isSome ∨ (reg s).get (g k) = none) :
    (reg (ks.foldl f s)).get l = if l ∈ ks.map g then none else (reg s).get l := by
  induction ks generalizing s with
  | nil => rfl
  | cons k ks ih =>
    have herase : reg (f s k) = (reg s).erase (g k) := by
      rw [hf]
      split_ifs with hk
      · rfl
      · have hgone := (hks k List.mem_cons_self).resolve_left hk
        exact (erase_eq_self hgone).symm
    have hrest : ∀ j ∈ ks, ((reg (f s k)).get j).isSome ∨ (reg (f s k)).get (g j) = none := by
      intro j hj
      rw [herase, get_erase, get_erase]
      by_cases hjk : j = g k
      · exact .inr (by rw [hjk, hg, if_pos rfl])
      · rw [if_neg hjk]
        refine (hks j (List.mem_cons_of_mem k hj)).imp_right fun hgone => ?_
        rw [hgone]
        exact ite_self none
    rw [List.foldl_cons, ih hrest, herase, get_erase, List.map_cons]
    grind

/-- A loop over all keys that erases the same one whenever it finds something. -/
theorem get_foldl_erase_const {σ : Type*} {f : σ → κ → σ} (reg : σ → Dictionary κ α) (e : κ)
    (hf : ∀ s k, reg (f s k) = if ((reg s).get k).isSome then (reg s).erase e else reg s) {s : σ} :
    (reg ((reg s).keys.foldl f s)).get l = if l = e then none else (reg s).get l := by
  have hkeys : ∀ k ∈ (reg s).keys, ((reg s).get k).isSome ∨ (reg s).get e = none := fun k hk =>
    .inl (get_isSome_iff.mpr hk)
  rw [get_foldl_erase reg (fun _ => e) (fun _ => rfl) hf hkeys]
  cases hnil : (reg s).keys with
  | nil => simp [keys_eq_nil_iff.mp hnil l]
  | cons k ks =>
    have hmem : l ∈ (k :: ks).map (fun _ => e) ↔ l = e := by
      simp only [List.map_cons, List.mem_cons, List.mem_map]
      grind
    simp only [hmem]

/-! ## Counting the values -/

theorem erase_set : (d.set k a).erase k = d.erase k := by
  apply ext
  unfold set
  split_ifs
  · simp only [erase, List.filter_map]
    have hout : ∀ e ∈ d.entries.filter fun e => decide (e.1 ≠ k), (if e.1 = k then (k, a) else e) = e := by
      intro e he
      have hne : e.1 ≠ k := by simpa using (List.mem_filter.mp he).2
      exact if_neg hne
    have hkeep : ((fun e : κ × α => decide (e.1 ≠ k)) ∘ fun e => if e.1 = k then (k, a) else e) =
        fun e => decide (e.1 ≠ k) := by
      funext e
      by_cases he : e.1 = k <;> simp [he]
    rw [hkeep]
    exact (List.map_congr_left hout).trans (List.map_id _)
  · simp [erase]

/-- One of them is under the key. -/
theorem countP_values_of_get (p : α → Bool) (h : d.get k = some a) :
    d.values.countP p = (d.erase k).values.countP p + if p a then 1 else 0 := by
  obtain ⟨xs, ys, hsplit⟩ := List.append_of_mem (get_eq_some_iff.mp h)
  have hnodup := d.nodup
  rw [hsplit, List.map_append, List.map_cons] at hnodup
  have hnot : ∀ e ∈ xs ++ ys, e.1 ≠ k := by
    intro e he hek
    have hmem : k ∈ xs.map Prod.fst ++ ys.map Prod.fst := by
      rw [← List.map_append]
      exact List.mem_map.mpr ⟨e, he, hek⟩
    exact (List.nodup_cons.mp (List.nodup_middle.mp hnodup)).1 hmem
  have herase : (d.erase k).entries = xs ++ ys := by
    simp only [erase, hsplit, List.filter_append]
    rw [List.filter_cons_of_neg (by simp), ← List.filter_append]
    exact List.filter_eq_self.mpr fun e he => by simpa using hnot e he
  simp only [values, herase, hsplit, List.map_append, List.map_cons, List.countP_append,
    List.countP_cons]
  omega

theorem countP_values_set (p : α → Bool) : (d.set k a).values.countP p =
    (d.erase k).values.countP p + if p a then 1 else 0 := by
  rw [countP_values_of_get p get_set_self, erase_set]

/-! ## Writing a list -/

/-- Every element under its key, in order. -/
def setAll (d : Dictionary κ α) (key : α → κ) (as : List α) : Dictionary κ α :=
  as.foldl (fun d a => d.set (key a) a) d

variable {key : α → κ} {as bs : List α}

theorem setAll_append : d.setAll key (as ++ bs) = (d.setAll key as).setAll key bs :=
  List.foldl_append ..

/-- An element that nothing later replaces is there. -/
theorem get_setAll_of_mem (ha : a ∈ as) (h : ∀ b ∈ as, key b = key a → b = a) :
    (d.setAll key as).get (key a) = some a := by
  induction as using List.reverseRecOn with
  | nil => contradiction
  | append_singleton as b ih =>
    rw [setAll_append]
    by_cases hk : key b = key a
    · obtain rfl := h b (by simp) hk
      exact get_set_self
    · have hmem : a ∈ as := by
        rcases List.mem_append.mp ha with hmem | hb
        · exact hmem
        · obtain rfl := List.mem_singleton.mp hb
          contradiction
      refine (get_set_of_ne (Ne.symm hk)).trans (ih hmem fun c hc => ?_)
      exact h c (List.mem_append_left _ hc)

/-- What is read was there or has been written. -/
theorem mem_of_get_setAll (h : (d.setAll key as).get k = some a) :
    d.get k = some a ∨ a ∈ as ∧ key a = k := by
  induction as generalizing d with
  | nil => exact .inl h
  | cons b as ih =>
    rcases ih h with hd | ⟨hmem, hk⟩
    · rw [get_set] at hd
      split_ifs at hd with hk
      · obtain rfl := Option.some.inj hd
        exact .inr ⟨List.mem_cons_self, hk.symm⟩
      · exact .inl hd
    · exact .inr ⟨List.mem_cons_of_mem b hmem, hk⟩

theorem set_eq_self (h : d.get k = some a) : d.set k a = d := by
  have hk : k ∈ d.keys := get_isSome_iff.mp (by rw [h]; rfl)
  have hmem := get_eq_some_iff.mp h
  apply ext
  simp only [set, hk, dif_pos]
  calc
    d.entries.map (fun e => if e.1 = k then (k, a) else e) = d.entries.map id := by
      refine List.map_congr_left fun e he => ?_
      split_ifs with hek
      · have hfound : d.get k = some e.2 := get_eq_some_iff.mpr (hek ▸ he)
        rw [h] at hfound
        rw [Option.some.inj hfound, ← hek]
        rfl
      · rfl
    _ = d.entries := List.map_id _

theorem values_set_of_notMem (h : k ∉ d.keys) : (d.set k a).values = d.values ++ [a] := by
  simp [set, h, values]

/-- Equal elements are written once, at the place of the first, and the others in order. -/
theorem values_setAll_sublist (h : ∀ a ∈ as, ∀ b ∈ as, key a = key b → a = b) :
    (setAll empty key as).values.Sublist as := by
  induction as using List.reverseRecOn with
  | nil => exact List.Sublist.refl _
  | append_singleton as a ih =>
    have hold := ih fun b hb c hc =>
      h b (List.mem_append_left _ hb) c (List.mem_append_left _ hc)
    rw [setAll_append]
    change ((setAll empty key as).set (key a) a).values.Sublist _
    by_cases hk : key a ∈ (setAll empty key as).keys
    · obtain ⟨b, hb⟩ := Option.isSome_iff_exists.mp (get_isSome_iff.mpr hk)
      have hfound := hb
      rcases mem_of_get_setAll hb with hnone | ⟨hmem, hkey⟩
      · simp at hnone
      · obtain rfl := h b (List.mem_append_left _ hmem) a (by simp) hkey
        rw [set_eq_self hfound]
        exact hold.trans (List.sublist_append_left _ _)
    · rw [values_set_of_notMem hk]
      exact hold.append (List.Sublist.refl _)

theorem mem_values_setAll (h : ∀ a ∈ as, ∀ b ∈ as, key a = key b → a = b) :
    a ∈ (setAll empty key as).values ↔ a ∈ as := by
  constructor
  · exact fun ha => (values_setAll_sublist h).subset ha
  · intro ha
    exact mem_values_iff.mpr ⟨key a, get_setAll_of_mem ha fun b hb hk => h b hb a ha hk⟩

theorem nodup_values_setAll : (setAll empty key as).values.Nodup := by
  have hkey : ∀ e ∈ (setAll empty key as).entries, key e.2 = e.1 := by
    intro e he
    rcases mem_of_get_setAll (get_eq_some_iff.mpr he) with hnone | ⟨_, hk⟩
    · simp at hnone
    · exact hk
  refine List.Nodup.of_map key ?_
  have hkeys : (setAll empty key as).values.map key = (setAll empty key as).keys := by
    rw [values, keys, List.map_map]
    exact List.map_congr_left hkey
  rw [hkeys]
  exact nodup_keys _

end Dictionary
