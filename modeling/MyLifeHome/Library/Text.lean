import Mathlib.Data.List.Basic
import Mathlib.Data.List.TakeWhile

/-!
# Fields, words and integers in a text

Three ways in which line protocols read a text: cutting it at every occurrence of
a separator, taking the words between runs of a separator one after another, and
reading a signed decimal integer at the front. Each comes with the law that
inverts it on what the corresponding writer produces.
-/
namespace Text

/-! ## Fields -/

/-- The pieces between the occurrences of `sep`; there is always at least one. -/
def split (sep : Char) (s : String) : List String := (s.toList.splitOn sep).map String.ofList

variable {sep : Char} {s t : String}

@[simp] theorem split_ne_nil : split sep s ≠ [] := by simp [split]

theorem split_of_notMem (h : sep ∉ s.toList) : split sep s = [s] := by
  simp [split, List.splitOn_eq_singleton h]

/-- A separator cuts, whatever surrounds it. -/
theorem split_append (s t : String) :
    split sep (s ++ String.singleton sep ++ t) = split sep s ++ split sep t := by
  simp [split, List.splitOn_append_cons_self]

theorem notMem_of_mem_splitOn {xs w : List Char} (h : w ∈ xs.splitOn sep) : sep ∉ w := by
  induction xs generalizing w with
  | nil => simp_all
  | cons x xs ih =>
    rw [List.splitOn_cons_eq_if_modifyHead] at h
    split_ifs at h with hx
    · rcases List.mem_cons.mp h with rfl | h
      · simp
      · exact ih h
    · cases hs : xs.splitOn sep with
      | nil => simp at hs
      | cons v vs =>
        rw [hs, List.modifyHead_cons] at h
        rcases List.mem_cons.mp h with rfl | h
        · have hv : sep ∉ v := ih (by simp [hs])
          simp only [beq_iff_eq] at hx
          simp [hv, Ne.symm hx]
        · exact ih (by simp [hs, h])

/-- No piece contains the separator. -/
theorem notMem_of_mem_split (h : t ∈ split sep s) : sep ∉ t.toList := by
  obtain ⟨w, hw, rfl⟩ := List.mem_map.mp h
  simpa using notMem_of_mem_splitOn hw

/-- The piece before the first separator. -/
def upTo (sep : Char) (s : String) : String := (split sep s).headD ""

theorem notMem_upTo : sep ∉ (upTo sep s).toList := by
  cases h : split sep s with
  | nil => simp at h
  | cons p ps => simpa [upTo, h] using notMem_of_mem_split (s := s) (by rw [h]; simp)

theorem upTo_of_notMem (h : sep ∉ s.toList) : upTo sep s = s := by
  simp [upTo, split_of_notMem h]

/-- `s`, then a separator and a field for each element of the list. -/
def joinAfter (sep : Char) (s : String) (fields : List String) : String :=
  fields.foldl (fun acc f => acc ++ String.singleton sep ++ f) s

theorem split_joinAfter (s : String) (fields : List String) :
    split sep (joinAfter sep s fields) = split sep s ++ fields.flatMap (split sep) := by
  induction fields generalizing s with
  | nil => simp [joinAfter]
  | cons f fs ih =>
    change split sep (joinAfter sep (s ++ String.singleton sep ++ f) fs) = _
    rw [ih, split_append, List.flatMap_cons, List.append_assoc]

theorem length_le_length_flatMap_split (fields : List String) :
    fields.length ≤ (fields.flatMap (split sep)).length := by
  induction fields with
  | nil => simp
  | cons f fs ih =>
    have hpos : 0 < (split sep f).length := List.length_pos_of_ne_nil split_ne_nil
    rw [List.flatMap_cons, List.length_append, List.length_cons]
    omega

theorem notMem_of_mem_flatMap_split {fields : List String} (h : t ∈ fields.flatMap (split sep)) :
    sep ∉ t.toList := by
  obtain ⟨f, _, ht⟩ := List.mem_flatMap.mp h
  exact notMem_of_mem_split ht

theorem flatMap_split_eq_self {fields : List String} (h : ∀ f ∈ fields, sep ∉ f.toList) :
    fields.flatMap (split sep) = fields := by
  induction fields with
  | nil => rfl
  | cons f fs ih =>
    rw [List.flatMap_cons, split_of_notMem (h f (by simp)), ih fun g hg => h g (by simp [hg])]
    rfl

/-- A separator after the first character of a field that has none there is after the field. -/
theorem le_of_notMem_tail {before field after : List Char} {i : Nat} (h : sep ∉ field.tail)
    (hi : (before ++ field ++ after)[i]? = some sep) (hlt : before.length < i) :
    before.length + field.length ≤ i := by
  by_contra hle
  refine h (List.mem_iff_getElem?.mpr ⟨i - before.length - 1, ?_⟩)
  rw [List.getElem?_tail]
  grind

/-- One before the last character is before the field. -/
theorem lt_of_notMem_dropLast {before field after : List Char} {i : Nat} (h : sep ∉ field.dropLast)
    (hi : (before ++ field ++ after)[i]? = some sep) (hlt : i + 1 < before.length + field.length) :
    i < before.length := by
  by_contra hle
  refine h (List.mem_iff_getElem?.mpr ⟨i - before.length, ?_⟩)
  rw [List.getElem?_dropLast]
  grind

/-! ## Words -/

/-- The next word of a text and what follows the separator that ended it. -/
def strtok (sep : Char) (cs : List Char) : Option (List Char × List Char) :=
  let start := cs.dropWhile (· == sep)
  if start = [] then none
  else some (start.takeWhile (· != sep), (start.dropWhile (· != sep)).drop 1)

/-- The words of a text: the nonempty pieces between separators. -/
def words (sep : Char) (cs : List Char) : List (List Char) := (cs.splitOn sep).filter (· ≠ [])

@[simp] theorem words_nil : words sep [] = [] := by simp [words]

@[simp] theorem words_sep_cons (cs : List Char) : words sep (sep :: cs) = words sep cs := by
  simp [words, List.splitOn_cons_eq_if_modifyHead]

theorem words_append (xs ys : List Char) :
    words sep (xs ++ sep :: ys) = words sep xs ++ words sep ys := by
  simp [words, List.splitOn_append_cons_self]

theorem words_of_notMem {cs : List Char} (h : sep ∉ cs) (hne : cs ≠ []) : words sep cs = [cs] := by
  simp [words, List.splitOn_eq_singleton h, hne]

theorem words_intercalate {ws : List (List Char)} (h : ∀ w ∈ ws, sep ∉ w ∧ w ≠ []) :
    words sep ([sep].intercalate ws) = ws := by
  cases ws with
  | nil => simp [words]
  | cons w ws =>
    rw [words, List.splitOn_intercalate sep (fun l hl => (h l hl).1) (List.cons_ne_nil w ws),
      List.filter_eq_self]
    intro l hl
    simpa using (h l hl).2

theorem ne_nil_of_mem_words {cs w : List Char} (h : w ∈ words sep cs) : w ≠ [] := by
  simpa using (List.mem_filter.mp h).2

theorem words_dropWhile (cs : List Char) :
    words sep (cs.dropWhile (· == sep)) = words sep cs := by
  induction cs with
  | nil => rfl
  | cons c cs ih =>
    by_cases h : c = sep
    · subst h; simpa using ih
    · simp [h]

theorem dropWhile_ne (sep : Char) (cs : List Char) :
    cs.dropWhile (· != sep) = [] ∨ ∃ rest, cs.dropWhile (· != sep) = sep :: rest := by
  cases h : cs.dropWhile (· != sep) with
  | nil => exact .inl rfl
  | cons c rest =>
    have hc := List.head?_dropWhile_not (· != sep) cs
    rw [h] at hc
    exact .inr ⟨rest, by simpa using hc⟩

/-- A text that does not start with the separator is its first word and the rest. -/
theorem words_takeWhile {cs : List Char} (hne : cs.takeWhile (· != sep) ≠ []) :
    words sep cs = cs.takeWhile (· != sep) :: words sep ((cs.dropWhile (· != sep)).drop 1) := by
  have hfree : sep ∉ cs.takeWhile (· != sep) := fun h => by simpa using List.mem_takeWhile_imp h
  conv_lhs => rw [← List.takeWhile_append_dropWhile (p := (· != sep)) (l := cs)]
  obtain h | ⟨rest, h⟩ := dropWhile_ne sep cs
  · simp [h, words_of_notMem hfree hne]
  · rw [h, words_append, words_of_notMem hfree hne]
    rfl

/-- Taking words one by one enumerates them. -/
theorem words_eq (cs : List Char) :
    words sep cs = match strtok sep cs with
      | none => []
      | some (w, rest) => w :: words sep rest := by
  rw [← words_dropWhile]
  unfold strtok
  cases h : cs.dropWhile (· == sep) with
  | nil => simp
  | cons c start =>
    have hc : c ≠ sep := by
      have := List.head?_dropWhile_not (· == sep) cs
      rw [h] at this
      simpa using this
    rw [words_takeWhile (by simp [hc])]
    simp

/-! ## Signed decimal integers -/

/-- The number denoted by the digits at the front, and what follows them. -/
def readNat (cs : List Char) : Option (Nat × List Char) :=
  let ds := cs.takeWhile Char.isDigit
  if ds = [] then none else some (Nat.ofDigitChars 10 ds 0, cs.dropWhile Char.isDigit)

/-- An optional sign and digits. -/
def readInt : List Char → Option (Int × List Char)
  | '-' :: cs => (readNat cs).map fun (n, rest) => (-(n : Int), rest)
  | '+' :: cs => (readNat cs).map fun (n, rest) => ((n : Int), rest)
  | cs => (readNat cs).map fun (n, rest) => ((n : Int), rest)

/-- What can be read starts with a sign or a digit. -/
theorem head_of_readInt {cs : List Char} {r : Int × List Char} (h : readInt cs = some r) :
    ∃ c rest, cs = c :: rest ∧ (c = '-' ∨ c = '+' ∨ c.isDigit = true) := by
  cases cs with
  | nil => simp [readInt, readNat] at h
  | cons c rest =>
    refine ⟨c, rest, rfl, ?_⟩
    by_contra hc
    simp only [not_or] at hc
    simp [readInt, hc, readNat] at h

/-- A text in which the digits end here. -/
def Ends (rest : List Char) : Prop := ∀ c ∈ rest.head?, c.isDigit = false

@[simp] theorem ends_nil : Ends [] := by simp [Ends]

theorem readNat_repr (n : Nat) {rest : List Char} (h : Ends rest) :
    readNat (n.repr.toList ++ rest) = some (n, rest) := by
  have hd : ∀ c ∈ Nat.toDigits 10 n, c.isDigit = true := fun c hc =>
    Nat.isDigit_of_mem_toDigits (by decide) (by decide) hc
  have hrest : rest.takeWhile Char.isDigit = [] ∧ rest.dropWhile Char.isDigit = rest := by
    cases rest with
    | nil => simp
    | cons c cs => simp [h c (by simp)]
  rw [Nat.toList_repr]
  simp [readNat, List.takeWhile_append_of_pos hd, List.dropWhile_append_of_pos hd, hrest.1,
    hrest.2, Nat.toDigits_ne_nil, Nat.ofDigitChars_ten_toDigits]

theorem head_repr_isDigit (n : Nat) : ∃ c cs, n.repr.toList = c :: cs ∧ c.isDigit = true := by
  rw [Nat.toList_repr]
  cases h : Nat.toDigits 10 n with
  | nil => exact absurd h Nat.toDigits_ne_nil
  | cons c cs =>
    exact ⟨c, cs, rfl, Nat.isDigit_of_mem_toDigits (b := 10) (n := n) (by decide) (by decide)
      (by rw [h]; simp)⟩

/-- Reading back what `toString` writes. -/
theorem readInt_toString (n : Int) {rest : List Char} (h : Ends rest) :
    readInt ((toString n).toList ++ rest) = some (n, rest) := by
  cases n with
  | ofNat n =>
    obtain ⟨c, cs, hc, hdig⟩ := head_repr_isDigit n
    have hn : (toString (Int.ofNat n)).toList = n.repr.toList := rfl
    rw [hn]
    have hread := readNat_repr n h
    rw [hc, List.cons_append] at hread ⊢
    have h1 : c ≠ '-' := by rintro rfl; simp at hdig
    have h2 : c ≠ '+' := by rintro rfl; simp at hdig
    simp [readInt, hread, h1, h2]
  | negSucc n =>
    have hn : (toString (Int.negSucc n)).toList = '-' :: (n + 1).repr.toList := by
      change ("-" ++ (n + 1).repr).toList = _
      simp
    have hread := readNat_repr (n + 1) h
    rw [hn, List.cons_append]
    simp only [readInt, hread, Option.map_some, Option.some.injEq, Prod.mk.injEq, and_true]
    omega

end Text
