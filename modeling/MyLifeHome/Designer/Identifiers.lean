import MyLifeHome.Core.Api
import MyLifeHome.Designer.Page

/-!
# What the identifiers of links tell

The page writes a link into the ids of two elements and reads it back, and the core keys its links
by `makeId`. Neither escapes the separators.
-/
namespace MyLifeHome.Designer

variable {l l' : LinkConfig} {p q : Process} {link : Link} {id : String} {δ : Type}

/-- A link whose names are not empty. -/
structure Filled (l : LinkConfig) : Prop where
  sourceComponent : l.sourceComponent ≠ ""
  sourceAttribute : l.sourceAttribute ≠ ""
  destinationComponent : l.destinationComponent ≠ ""
  destinationAction : l.destinationAction ≠ ""

/-- The links of the registry have been created from such links. -/
def Held (p : Process) : Prop :=
  ∀ id link, p.links.get id = some link → id = Links.makeId link.config ∧ Filled link.config

/-- The ids of a link stand for it alone. -/
structure Faithful (δ : Type) (l : LinkConfig) : Prop where
  fields : (linkBetween (getSourceId l) (getTargetId l)).toLinkConfig = l
  id : (linkBetween (getSourceId l) (getTargetId l)).id = Links.makeId l
  distinct : ∀ l', Filled l' → l' ≠ l → Links.makeId l' ≠ Links.makeId l
  create : ∀ p, Held p → (∀ id link, p.links.get id = some link → link.config ≠ l) →
    Links.create p l ≠ .error (.error "link already exists")
  remove : ∀ (m m' : Manager δ), Held m.process → m.removeLink (Links.makeId l) = .ok m' →
    ∀ id link, m.process.links.get id = some link → link.config ≠ l →
      m'.process.links.get id = some link

/-- No name has a colon. The first name may begin with a bar, the last may end with one, and one
between them may be a bar. -/
structure Plain (l : LinkConfig) : Prop where
  colon : ∀ name ∈ [l.sourceComponent, l.sourceAttribute, l.destinationComponent,
    l.destinationAction], ':' ∉ name.toList
  sourceComponent : '|' ∉ l.sourceComponent.toList.tail
  sourceAttribute : l.sourceAttribute = "|" ∨ '|' ∉ l.sourceAttribute.toList
  destinationComponent : l.destinationComponent = "|" ∨ '|' ∉ l.destinationComponent.toList
  destinationAction : '|' ∉ l.destinationAction.toList.dropLast

/-! ## The registry -/

theorem Held.create (hp : Held p) (hl : Filled l) (h : Links.create p l = .ok (q, link)) :
    Held q := by
  obtain ⟨_, _, _, _, _, rfl, rfl⟩ := create_eq_ok h
  intro id' link' hget
  rw [Dictionary.get_set] at hget
  split_ifs at hget with hid
  · obtain rfl := Option.some.inj hget
    exact ⟨hid, hl⟩
  · exact hp id' link' hget

/-- Where the id is free, only a component can be missing. -/
theorem create_ne_exists (hget : p.links.get (Links.makeId l) = none) :
    Links.create p l ≠ .error (.error "link already exists") := by
  have hcomponent : ∀ id, Links.component p id = .error .typeError ∨
      ∃ r, Links.component p id = .ok r := by
    intro id
    unfold Links.component
    cases p.netRepository.get id with
    | none => exact .inl rfl
    | some container => exact .inr ⟨_, rfl⟩
  intro h
  obtain hsource | ⟨source, hsource⟩ := hcomponent l.sourceComponent
  · simp [Links.create, hget, hsource, bind, Except.bind] at h
  obtain hdestination | ⟨destination, hdestination⟩ := hcomponent l.destinationComponent
  · simp [Links.create, hget, hsource, hdestination, bind, Except.bind] at h
  · simp [Links.create, hget, hsource, hdestination, bind, Except.bind, pure, Except.pure] at h

theorem destroy_get (hid : id ≠ Links.makeId l) :
    (Links.destroy p (Links.makeId l)).1.links.get id = p.links.get id := by
  unfold Links.destroy
  cases hget : p.links.get (Links.makeId l) with
  | none => rfl
  | some link => exact Dictionary.get_erase.trans (if_neg hid)

theorem removeLink_get {m m' : Manager δ} (h : m.removeLink (Links.makeId l) = .ok m')
    (hid : id ≠ Links.makeId l) : m'.process.links.get id = m.process.links.get id := by
  have hget := destroy_get (p := m.process) hid
  unfold Manager.removeLink at h
  generalize Links.destroy m.process (Links.makeId l) = answer at h hget
  obtain ⟨p, found⟩ := answer
  cases found with
  | false => contradiction
  | true =>
    obtain rfl := Except.ok.inj h
    exact hget

/-! ## Bars -/

section Bars

variable {A B C D A' B' C' D' x y : List Char} {i : Nat}

/-- The text of an id. -/
def barred (A B C D : List Char) : List Char := A ++ '|' :: (B ++ '|' :: (C ++ '|' :: D))

theorem getElem?_barred (A B C D : List Char) :
    (barred A B C D)[A.length]? = some '|' ∧
    (barred A B C D)[A.length + 1 + B.length]? = some '|' ∧
    (barred A B C D)[A.length + 1 + B.length + 1 + C.length]? = some '|' := by
  unfold barred
  grind

/-- The bars of the id are where those of the other one are. -/
theorem barred_injective (hA : '|' ∉ A.tail) (hB : '|' ∉ B.tail ∧ '|' ∉ B.dropLast)
    (hC : '|' ∉ C.tail ∧ '|' ∉ C.dropLast) (hD : '|' ∉ D.dropLast) (hA' : A' ≠ []) (hB' : B' ≠ [])
    (hC' : C' ≠ []) (hD' : D' ≠ []) (h : barred A' B' C' D' = barred A B C D) :
    A' = A ∧ B' = B ∧ C' = C ∧ D' = D := by
  have hposA := List.length_pos_of_ne_nil hA'
  have hposB := List.length_pos_of_ne_nil hB'
  have hposC := List.length_pos_of_ne_nil hC'
  have hposD := List.length_pos_of_ne_nil hD'
  have hlength : (barred A' B' C' D').length = (barred A B C D).length := congrArg List.length h
  simp only [barred, List.length_append, List.length_cons] at hlength
  obtain ⟨h₁, h₂, h₃⟩ := h ▸ getElem?_barred A' B' C' D'
  have hatA : barred A B C D = [] ++ A ++ '|' :: (B ++ '|' :: (C ++ '|' :: D)) := by simp [barred]
  have hatB : barred A B C D = (A ++ ['|']) ++ B ++ '|' :: (C ++ '|' :: D) := by simp [barred]
  have hatC : barred A B C D = (A ++ '|' :: B ++ ['|']) ++ C ++ '|' :: D := by simp [barred]
  have hatD : barred A B C D = (A ++ '|' :: (B ++ '|' :: C) ++ ['|']) ++ D ++ [] := by simp [barred]
  -- none of them is before
  have hfirst : A.length ≤ A'.length := by
    have hle := Text.le_of_notMem_tail hA (hatA ▸ h₁) (by simpa using hposA)
    simp only [List.length_nil] at hle
    omega
  have hsecond : A.length + 1 + B.length ≤ A'.length + 1 + B'.length := by
    have hle := Text.le_of_notMem_tail hB.1 (hatB ▸ h₂) (by simp; omega)
    simp only [List.length_append, List.length_cons, List.length_nil] at hle
    omega
  have hthird : A.length + 1 + B.length + 1 + C.length ≤
      A'.length + 1 + B'.length + 1 + C'.length := by
    have hle := Text.le_of_notMem_tail hC.1 (hatC ▸ h₃) (by simp; omega)
    simp only [List.length_append, List.length_cons, List.length_nil] at hle
    omega
  -- none is after
  have hthird' : A'.length + 1 + B'.length + 1 + C'.length ≤
      A.length + 1 + B.length + 1 + C.length := by
    have hlt := Text.lt_of_notMem_dropLast hD (hatD ▸ h₃) (by simp; omega)
    simp only [List.length_append, List.length_cons, List.length_nil] at hlt
    omega
  have hsecond' : A'.length + 1 + B'.length ≤ A.length + 1 + B.length := by
    have hlt := Text.lt_of_notMem_dropLast hC.2 (hatC ▸ h₂) (by simp; omega)
    simp only [List.length_append, List.length_cons, List.length_nil] at hlt
    omega
  have hfirst' : A'.length ≤ A.length := by
    have hlt := Text.lt_of_notMem_dropLast hB.2 (hatB ▸ h₁) (by simp; omega)
    simp only [List.length_append, List.length_cons, List.length_nil] at hlt
    omega
  obtain ⟨heqA, htail⟩ := List.append_inj h (by omega)
  obtain ⟨heqB, htail⟩ := List.append_inj (List.cons.inj htail).2 (by omega)
  obtain ⟨heqC, htail⟩ := List.append_inj (List.cons.inj htail).2 (by omega)
  exact ⟨heqA, heqB, heqC, (List.cons.inj htail).2⟩

end Bars

theorem makeId_toList (l : LinkConfig) : (Links.makeId l).toList = barred l.sourceComponent.toList
    l.sourceAttribute.toList l.destinationComponent.toList l.destinationAction.toList := by
  simp [Links.makeId, barred]

theorem notMem_tail_and_dropLast {s : String} (h : s = "|" ∨ '|' ∉ s.toList) :
    '|' ∉ s.toList.tail ∧ '|' ∉ s.toList.dropLast := by
  rcases h with rfl | h
  · decide
  · exact ⟨fun hmem => h (List.mem_of_mem_tail hmem), fun hmem => h (List.dropLast_subset _ hmem)⟩

theorem Plain.distinct (hl : Plain l) (hl' : Filled l') (h : Links.makeId l' = Links.makeId l) :
    l' = l := by
  have htext := congrArg String.toList h
  rw [makeId_toList, makeId_toList] at htext
  have hne : ∀ {s : String}, s ≠ "" → s.toList ≠ [] := fun hs => by simpa using hs
  obtain ⟨hA, hB, hC, hD⟩ := barred_injective hl.sourceComponent
    (notMem_tail_and_dropLast hl.sourceAttribute) (notMem_tail_and_dropLast hl.destinationComponent)
    hl.destinationAction (hne hl'.sourceComponent) (hne hl'.sourceAttribute)
    (hne hl'.destinationComponent) (hne hl'.destinationAction) htext
  obtain ⟨A, B, C, D⟩ := l
  obtain ⟨A', B', C', D'⟩ := l'
  rw [String.toList_inj] at hA hB hC hD
  simp only at hA hB hC hD
  rw [hA, hB, hC, hD]

theorem exists_of_mem {s : String} (h : '|' ∈ s.toList) : ∃ x y, s = x ++ "|" ++ y := by
  obtain ⟨x, y, hxy⟩ := List.append_of_mem h
  exact ⟨String.ofList x, String.ofList y, String.toList_inj.mp (by simp [hxy])⟩

theorem exists_of_mem_tail {s : String} (h : '|' ∈ s.toList.tail) :
    ∃ x y, x ≠ "" ∧ s = x ++ "|" ++ y := by
  cases hs : s.toList with
  | nil => simp [hs] at h
  | cons c cs =>
    rw [hs, List.tail_cons] at h
    obtain ⟨x, y, hxy⟩ := List.append_of_mem h
    exact ⟨String.ofList (c :: x), String.ofList y, by simp, String.toList_inj.mp (by simp [hs, hxy])⟩

theorem exists_of_mem_dropLast {s : String} (h : '|' ∈ s.toList.dropLast) :
    ∃ x y, y ≠ "" ∧ s = x ++ "|" ++ y := by
  cases hs : s.toList.reverse with
  | nil => simp [List.reverse_eq_nil_iff.mp hs] at h
  | cons c cs =>
    have hs : s.toList = cs.reverse ++ [c] := by simpa using congrArg List.reverse hs
    rw [hs, List.dropLast_concat] at h
    obtain ⟨x, y, hxy⟩ := List.append_of_mem h
    exact ⟨String.ofList x, String.ofList (y ++ [c]), by simp,
      String.toList_inj.mp (by simp [hs, hxy])⟩

/-- Where a name has a bar, another link has the same id. -/
theorem plain_of_distinct (hl : Filled l) (hcolon : ∀ name ∈ [l.sourceComponent, l.sourceAttribute,
    l.destinationComponent, l.destinationAction], ':' ∉ name.toList)
    (h : ∀ l', Filled l' → l' ≠ l → Links.makeId l' ≠ Links.makeId l) : Plain l := by
  obtain ⟨A, B, C, D⟩ := l
  obtain ⟨hA, hB, hC, hD⟩ := hl
  have hsame : ∀ A' B' C' D', Filled ⟨A', B', C', D'⟩ →
      Links.makeId ⟨A', B', C', D'⟩ = Links.makeId ⟨A, B, C, D⟩ →
      (A' = A ∧ B' = B) ∧ C' = C ∧ D' = D := by
    intro A' B' C' D' hfilled hid
    by_contra hne
    refine h _ hfilled (fun heq => hne ?_) hid
    obtain ⟨rfl, rfl, rfl, rfl⟩ := LinkConfig.mk.inj heq
    exact ⟨⟨rfl, rfl⟩, rfl, rfl⟩
  have hfull : ∀ x y : String, x ++ "|" ++ y ≠ "" := by simp
  have hshorter : ∀ x y : String, x ≠ x ++ "|" ++ y ∧ y ≠ x ++ "|" ++ y := by
    intro x y
    constructor <;>
      · intro heq
        have hlength := congrArg String.length heq
        have hbar : "|".length = 1 := rfl
        simp only [String.length_append, hbar] at hlength
        omega
  refine ⟨hcolon, fun hmem => ?_, ?_, ?_, fun hmem => ?_⟩
  · obtain ⟨x, y, hx, rfl⟩ := exists_of_mem_tail hmem
    have heq := hsame x (y ++ "|" ++ B) C D ⟨hx, hfull y B, hC, hD⟩
      (by simp [Links.makeId, String.append_assoc])
    exact (hshorter x y).1 heq.1.1
  · by_contra hor
    obtain ⟨hbar, hmem⟩ := not_or.mp hor
    obtain ⟨x, y, rfl⟩ := exists_of_mem (not_not.mp hmem)
    by_cases hx : x = ""
    · have hy : y ≠ "" := by
        rintro rfl
        exact hbar (by simp [hx])
      have heq := hsame (A ++ "|" ++ x) y C D ⟨hfull A x, hy, hC, hD⟩
        (by simp [Links.makeId, String.append_assoc])
      exact (hshorter x y).2 heq.1.2
    · have heq := hsame A x (y ++ "|" ++ C) D ⟨hA, hx, hfull y C, hD⟩
        (by simp [Links.makeId, String.append_assoc])
      exact (hshorter x y).1 heq.1.2
  · by_contra hor
    obtain ⟨hbar, hmem⟩ := not_or.mp hor
    obtain ⟨x, y, rfl⟩ := exists_of_mem (not_not.mp hmem)
    by_cases hx : x = ""
    · have hy : y ≠ "" := by
        rintro rfl
        exact hbar (by simp [hx])
      have heq := hsame A (B ++ "|" ++ x) y D ⟨hA, hfull B x, hy, hD⟩
        (by simp [Links.makeId, String.append_assoc])
      exact (hshorter x y).2 heq.2.1
    · have heq := hsame A B x (y ++ "|" ++ D) ⟨hA, hB, hx, hfull y D⟩
        (by simp [Links.makeId, String.append_assoc])
      exact (hshorter x y).1 heq.2.1
  · obtain ⟨x, y, hy, rfl⟩ := exists_of_mem_dropLast hmem
    have heq := hsame A B (C ++ "|" ++ x) y ⟨hA, hB, hfull C x, hy⟩
      (by simp [Links.makeId, String.append_assoc])
    exact (hshorter x y).2 heq.2.2

theorem piece_notMem (id : String) (i : Nat) : ':' ∉ (piece id i).toList := by
  unfold piece
  rw [List.getD_eq_getElem?_getD]
  cases hget : (Text.split ':' id)[i]? with
  | none => simp
  | some piece => exact Text.notMem_of_mem_split (List.mem_of_getElem? hget)

theorem split_schemaId (kind : String) {x y : String} (hkind : ':' ∉ kind.toList) (hx : ':' ∉ x.toList)
    (hy : ':' ∉ y.toList) : Text.split ':' (kind ++ ":" ++ x ++ ":" ++ y) = [kind, x, y] := by
  have heq : kind ++ ":" ++ x ++ ":" ++ y = kind ++ String.singleton ':' ++
      (x ++ String.singleton ':' ++ y) := by simp [String.append_assoc]
  rw [heq, Text.split_append, Text.split_append, Text.split_of_notMem hkind,
    Text.split_of_notMem hx, Text.split_of_notMem hy]
  rfl

theorem linkBetween_toLinkConfig_iff :
    (linkBetween (getSourceId l) (getTargetId l)).toLinkConfig = l ↔
      ∀ name ∈ [l.sourceComponent, l.sourceAttribute, l.destinationComponent,
        l.destinationAction], ':' ∉ name.toList := by
  constructor
  · intro h name hname
    rw [← h] at hname
    simp only [linkBetween, List.mem_cons, List.not_mem_nil, or_false] at hname
    obtain rfl | rfl | rfl | rfl := hname <;> exact piece_notMem _ _
  · intro h
    obtain ⟨A, B, C, D⟩ := l
    obtain ⟨hA, hB, hC, hD⟩ : ':' ∉ A.toList ∧ ':' ∉ B.toList ∧ ':' ∉ C.toList ∧ ':' ∉ D.toList := by
      simpa using h
    have hsource : Text.split ':' (getSourceId ⟨A, B, C, D⟩) = ["attribute", A, B] :=
      split_schemaId "attribute" (by decide) hA hB
    have htarget : Text.split ':' (getTargetId ⟨A, B, C, D⟩) = ["action", C, D] :=
      split_schemaId "action" (by decide) hC hD
    simp [linkBetween, piece, hsource, htarget]

theorem linkBetween_id (sourceId targetId : String) : (linkBetween sourceId targetId).id =
    Links.makeId (linkBetween sourceId targetId).toLinkConfig := rfl

/-- The ids stand for the link exactly when its names are plain. -/
theorem faithful_iff (hl : Filled l) : Faithful δ l ↔ Plain l := by
  constructor
  · intro h
    exact plain_of_distinct hl (linkBetween_toLinkConfig_iff.mp h.fields) h.distinct
  · intro h
    have hfields := linkBetween_toLinkConfig_iff.mpr h.colon
    have hdistinct : ∀ l', Filled l' → l' ≠ l → Links.makeId l' ≠ Links.makeId l :=
      fun l' hl' hne hid => hne (h.distinct hl' hid)
    refine ⟨hfields, by rw [linkBetween_id, hfields], hdistinct, ?_, ?_⟩
    · intro p hp hnew hexists
      cases hget : p.links.get (Links.makeId l) with
      | none =>
        exact create_ne_exists hget hexists
      | some link =>
        obtain ⟨hid, hfilled⟩ := hp _ _ hget
        exact hdistinct _ hfilled (hnew _ _ hget) hid.symm
    · intro m m' hp hremove id link hget hne
      obtain ⟨rfl, hfilled⟩ := hp id link hget
      rw [removeLink_get hremove (hdistinct _ hfilled hne), hget]

theorem faithful_lamp : Faithful Unit ⟨"button", "output", "lamp", "input"⟩ :=
  (faithful_iff ⟨by decide, by decide, by decide, by decide⟩).mpr
    ⟨by decide, by decide, .inr (by decide), .inr (by decide), by decide⟩

/-- The page reads another component back, or the core finds another link under the id. -/
theorem not_faithful_hall : ¬Faithful Unit ⟨"hall:button", "output", "lamp", "input"⟩ ∧
    ¬Faithful Unit ⟨"hall|button", "output", "lamp", "input"⟩ := by
  constructor
  · intro h
    exact absurd (congrArg LinkConfig.sourceComponent h.fields) (by decide)
  · intro h
    exact h.distinct ⟨"hall", "button|output", "lamp", "input"⟩
      ⟨by decide, by decide, by decide, by decide⟩ (by decide) (by decide)

end MyLifeHome.Designer
