import Mathlib.Data.List.Basic
import Mathlib.Data.List.Count

/-!
# Text in bytes

UTF-8, with a decoder that never fails: what is no encoding of a character is replaced. A piece of
a text that was cut between two bytes of a character starts or ends with replacements, so that it
has more characters outside of ASCII than the text.
-/
namespace Utf8

def encode (cs : List Char) : List UInt8 := cs.flatMap String.utf8EncodeChar

/-- The character at the front. -/
def front (bs : List UInt8) : Option Char := bs.toByteArray.utf8DecodeChar? 0

/-- The bytes of a character after the first. -/
def isContinuation (b : UInt8) : Bool := 0x80 ≤ b && b ≤ 0xBF

def replacement : Char := '\uFFFD'

/-- How many bytes that are no character are replaced together. -/
def malformedLength : List UInt8 → Nat
  | b1 :: b2 :: bs =>
    let tail := if bs.head?.any isContinuation then 3 else 2
    if 0xE0 ≤ b1 && b1 ≤ 0xEF then
      if (b1 == 0xE0 && b2 &&& 0xE0 == 0x80) || !isContinuation b2 then 1 else tail
    else if 0xF0 ≤ b1 && b1 ≤ 0xF4 then
      if (b1 == 0xF0 && b2 < 0x90) || (b1 == 0xF4 && b2 &&& 0xF0 != 0x80) || !isContinuation b2
      then 1 else tail
    else 1
  | _ => 1

/-- The decoder, after bytes that are read already. -/
def decodeAfter : Nat → List UInt8 → List Char
  | _, [] => []
  | n + 1, _ :: bs => decodeAfter n bs
  | 0, b :: bs =>
    match front (b :: bs) with
    | some c => c :: decodeAfter (c.utf8Size - 1) bs
    | none => replacement :: decodeAfter (malformedLength (b :: bs) - 1) bs

def decode (bs : List UInt8) : List Char := decodeAfter 0 bs

/-- How many characters are not in ASCII. -/
def wide (cs : List Char) : Nat := cs.countP fun c => 127 < c.val

variable {c d : Char} {cs ds text : List Char} {b : UInt8} {bs as ps qs : List UInt8}

/-! ## Encodings -/

@[simp] theorem encode_nil : encode [] = [] := rfl

@[simp] theorem encode_cons : encode (c :: cs) = String.utf8EncodeChar c ++ encode cs := rfl

@[simp] theorem encode_append : encode (cs ++ ds) = encode cs ++ encode ds := List.flatMap_append

theorem front_append (c : Char) (bs : List UInt8) : front (String.utf8EncodeChar c ++ bs) = some c := by
  rw [front, List.toByteArray_append]
  exact ByteArray.utf8DecodeChar?_utf8EncodeChar_append

theorem exists_of_front (h : front bs = some c) : ∃ as, bs = String.utf8EncodeChar c ++ as := by
  obtain ⟨l, hl⟩ := ByteArray.exists_of_utf8DecodeChar?_eq_some h
  refine ⟨l.data.toList, ?_⟩
  have hlist := congrArg (fun bytes : ByteArray => bytes.data.toList) hl
  simpa using hlist

theorem isContinuation_ofNat {n : Nat} (hn : n < 256) :
    isContinuation (UInt8.ofNat n) = (decide (128 ≤ n) && decide (n ≤ 191)) := by
  have hnat : (UInt8.ofNat n).toNat = n := by rw [UInt8.toNat_ofNat']; omega
  simp only [isContinuation, UInt8.le_iff_toNat_le, hnat]
  rfl

/-- A first byte and the others. -/
theorem utf8EncodeChar_eq (c : Char) :
    ∃ b bs, String.utf8EncodeChar c = b :: bs ∧ isContinuation b = false ∧
      (∀ b ∈ bs, isContinuation b) ∧ (127 < c.val ↔ bs ≠ []) := by
  have hwide : 127 < c.val ↔ 127 < c.val.toNat := UInt32.lt_iff_toNat_lt
  have htail : ∀ n, isContinuation (UInt8.ofNat (n % 64 + 128)) := by
    intro n
    rw [isContinuation_ofNat (by omega)]
    grind
  have hvalid : c.val.toNat < 0x110000 := by
    have hc := c.valid
    unfold UInt32.isValidChar Nat.isValidChar at hc
    omega
  have hnil : ∀ b ∈ ([] : List UInt8), isContinuation b := by simp
  unfold String.utf8EncodeChar
  rw [hwide]
  generalize c.val.toNat = v at hvalid
  dsimp only
  split_ifs with h₁ h₂ h₃
  · refine ⟨_, _, rfl, ?_, hnil, by simpa using h₁⟩
    rw [isContinuation_ofNat (by omega)]
    grind
  · refine ⟨_, _, rfl, ?_, List.forall_mem_cons.mpr ⟨htail _, hnil⟩, by simpa using h₁⟩
    rw [isContinuation_ofNat (by omega)]
    grind
  · refine ⟨_, _, rfl, ?_, List.forall_mem_cons.mpr ⟨htail _, List.forall_mem_cons.mpr
      ⟨htail _, hnil⟩⟩, by simpa using h₁⟩
    rw [isContinuation_ofNat (by omega)]
    grind
  · refine ⟨_, _, rfl, ?_, List.forall_mem_cons.mpr ⟨htail _, List.forall_mem_cons.mpr
      ⟨htail _, List.forall_mem_cons.mpr ⟨htail _, hnil⟩⟩⟩, by simpa using h₁⟩
    rw [isContinuation_ofNat (by omega)]
    grind

/-! ## Decoding -/

theorem decodeAfter_eq (n : Nat) (bs : List UInt8) : decodeAfter n bs = decode (bs.drop n) := by
  induction bs generalizing n with
  | nil => cases n <;> simp [decodeAfter, decode]
  | cons b bs ih =>
    cases n with
    | zero => rfl
    | succ n => exact ih n

theorem decode_utf8EncodeChar_append (c : Char) (bs : List UInt8) :
    decode (String.utf8EncodeChar c ++ bs) = c :: decode bs := by
  have hfront := front_append c bs
  have hlength := String.length_utf8EncodeChar c
  obtain ⟨b, as, heq, _⟩ := utf8EncodeChar_eq c
  rw [heq, List.cons_append] at hfront ⊢
  rw [heq, List.length_cons] at hlength
  rw [decode, decodeAfter, hfront]
  dsimp only
  rw [decodeAfter_eq]
  have hdrop : c.utf8Size - 1 = as.length := by omega
  rw [hdrop, List.drop_left]

@[simp] theorem decode_encode_append (cs : List Char) (bs : List UInt8) :
    decode (encode cs ++ bs) = cs ++ decode bs := by
  induction cs with
  | nil => rfl
  | cons c cs ih => rw [encode_cons, List.append_assoc, decode_utf8EncodeChar_append, ih]; rfl

@[simp] theorem decode_encode (cs : List Char) : decode (encode cs) = cs := by
  have h := decode_encode_append cs []
  simpa [decode, decodeAfter] using h

theorem front_eq_none_of_isContinuation (hb : isContinuation b) : front (b :: bs) = none := by
  rw [Option.eq_none_iff_forall_ne_some]
  intro c hc
  obtain ⟨as, has⟩ := exists_of_front hc
  obtain ⟨b', bs', heq, hfirst, _⟩ := utf8EncodeChar_eq c
  rw [heq, List.cons_append] at has
  obtain ⟨rfl, _⟩ := List.cons.inj has
  rw [hfirst] at hb
  contradiction

theorem malformedLength_of_isContinuation (hb : isContinuation b) : malformedLength (b :: bs) = 1 := by
  have hlast : ¬(0xE0 ≤ b) ∧ ¬(0xF0 ≤ b) := by
    simp only [isContinuation, Bool.and_eq_true, decide_eq_true_eq, UInt8.le_iff_toNat_le] at hb ⊢
    simp at hb ⊢
    omega
  cases bs <;> simp [malformedLength, hlast]

/-- A byte that belongs to a character before it. -/
theorem decode_isContinuation (hb : isContinuation b) : decode (b :: bs) = replacement :: decode bs := by
  rw [decode, decodeAfter, front_eq_none_of_isContinuation hb]
  dsimp only
  rw [malformedLength_of_isContinuation hb, decodeAfter_eq]
  rfl

theorem decode_isContinuation_append (bs : List UInt8) (hqs : ∀ b ∈ qs, isContinuation b) :
    decode (qs ++ bs) = List.replicate qs.length replacement ++ decode bs := by
  induction qs with
  | nil => rfl
  | cons b qs ih =>
    have hb := hqs b List.mem_cons_self
    rw [List.cons_append, decode_isContinuation hb,
      ih fun b hb => hqs b (List.mem_cons_of_mem _ hb)]
    rfl

/-- The first bytes of a character without the others. -/
theorem decode_part (hp : ps ≠ []) (hq : qs ≠ []) (h : ps ++ qs = String.utf8EncodeChar c) :
    ∃ n, decode ps = List.replicate (n + 1) replacement := by
  obtain ⟨b, bs, heq, _, hbs, _⟩ := utf8EncodeChar_eq c
  obtain ⟨a, as, rfl⟩ := List.exists_cons_of_ne_nil hp
  have has : ∀ b ∈ as, isContinuation b := by
    rw [heq, List.cons_append] at h
    obtain ⟨_, rfl⟩ := List.cons.inj h
    exact fun b hb => hbs b (List.mem_append_left _ hb)
  have hnone : front (a :: as) = none := by
    rw [Option.eq_none_iff_forall_ne_some]
    intro d hd
    have hwhole : front (a :: as ++ qs) = some d := by
      rw [front, List.toByteArray_append]
      exact ByteArray.utf8DecodeChar?_append_eq_some hd _
    have hchar := front_append c []
    rw [List.append_nil, ← h, hwhole] at hchar
    obtain rfl := Option.some.inj hchar
    obtain ⟨rest, hrest⟩ := exists_of_front hd
    have hlength := congrArg List.length h
    rw [hrest, List.length_append, List.length_append] at hlength
    exact hq (List.eq_nil_of_length_eq_zero (by omega))
  rw [decode, decodeAfter, hnone]
  dsimp only
  rw [decodeAfter_eq]
  have htail := decode_isContinuation_append []
    fun b hb => has b (List.mem_of_mem_drop (i := malformedLength (a :: as) - 1) hb)
  rw [List.append_nil] at htail
  exact ⟨_, by rw [htail]; simp [decode, decodeAfter, List.replicate_succ]; rfl⟩

/-! ## Cuts -/

/-- A text that is cut somewhere is cut between two characters or in one. -/
theorem encode_eq_append (h : encode text = as ++ bs) :
    (∃ cs ds, text = cs ++ ds ∧ as = encode cs ∧ bs = encode ds) ∨
    ∃ cs c ds ps qs, text = cs ++ c :: ds ∧ ps ≠ [] ∧ qs ≠ [] ∧ ps ++ qs = String.utf8EncodeChar c ∧
      as = encode cs ++ ps ∧ bs = qs ++ encode ds := by
  induction text generalizing as with
  | nil =>
    obtain ⟨rfl, rfl⟩ := List.append_eq_nil_iff.mp h.symm
    exact .inl ⟨[], [], rfl, rfl, rfl⟩
  | cons c text ih =>
    rw [encode_cons] at h
    rcases List.append_eq_append_iff.mp h with ⟨as, rfl, hrest⟩ | ⟨qs, hchar, rfl⟩
    · rcases ih hrest with ⟨cs, ds, rfl, rfl, rfl⟩ | ⟨cs, d, ds, ps, qs, rfl, hp, hq, hd, rfl, rfl⟩
      · exact .inl ⟨c :: cs, ds, rfl, rfl, rfl⟩
      · refine .inr ⟨c :: cs, d, ds, ps, qs, rfl, hp, hq, hd, ?_, rfl⟩
        rw [encode_cons, List.append_assoc]
    · by_cases hp : as = []
      · subst hp
        exact .inl ⟨[], c :: text, rfl, rfl, by rw [encode_cons, hchar]; rfl⟩
      by_cases hq : qs = []
      · subst hq
        refine .inl ⟨[c], text, rfl, ?_, by simp⟩
        rw [encode_cons, hchar]
        simp
      · exact .inr ⟨[], c, text, as, qs, rfl, hp, hq, hchar.symm, rfl, rfl⟩

/-- No character is cut. -/
def Whole (chunks : List (List UInt8)) : Prop := ∀ chunk ∈ chunks, ∃ cs, chunk = encode cs

/-- What the pieces are decoded to, each on its own. -/
def decodeEach (chunks : List (List UInt8)) : List Char := chunks.flatMap decode

@[simp] theorem wide_append : wide (cs ++ ds) = wide cs + wide ds := List.countP_append

@[simp] theorem wide_replicate (n : Nat) : wide (List.replicate n replacement) = n := by
  rw [wide, List.countP_replicate, if_pos (by decide)]

theorem wide_cons_le (c : Char) (cs : List Char) : wide (c :: cs) ≤ wide cs + 1 := by
  rw [wide, List.countP_cons]
  split_ifs <;> simp [wide]

variable {chunks : List (List UInt8)}

theorem encode_inj (h : encode cs = encode ds) : cs = ds := by
  rw [← decode_encode cs, h, decode_encode]

theorem isContinuation_of_append (hp : ps ≠ []) (h : ps ++ qs = String.utf8EncodeChar c) :
    ∀ b ∈ qs, isContinuation b := by
  obtain ⟨b, bs, heq, _, hbs, _⟩ := utf8EncodeChar_eq c
  obtain ⟨a, as, rfl⟩ := List.exists_cons_of_ne_nil hp
  rw [heq, List.cons_append] at h
  obtain ⟨_, rfl⟩ := List.cons.inj h
  exact fun b hb => hbs b (List.mem_append_right _ hb)

@[simp] theorem decodeEach_cons (bs : List UInt8) (chunks : List (List UInt8)) :
    decodeEach (bs :: chunks) = decode bs ++ decodeEach chunks := List.flatMap_cons

theorem flatten_of_whole (h : Whole chunks) : chunks.flatten = encode (decodeEach chunks) := by
  induction chunks with
  | nil => rfl
  | cons bs chunks ih =>
    obtain ⟨cs, rfl⟩ := h bs List.mem_cons_self
    rw [List.flatten_cons, ih fun bs hbs => h bs (List.mem_cons_of_mem _ hbs), decodeEach_cons,
      decode_encode, encode_append]

theorem decodeEach_of_whole (h : Whole chunks) (hflat : chunks.flatten = encode text) :
    decodeEach chunks = text :=
  encode_inj ((flatten_of_whole h).symm.trans hflat)

/-- Every byte of a character that was cut counts as one behind the cut. -/
theorem wide_le_decodeEach (hqs : ∀ b ∈ qs, isContinuation b)
    (hflat : chunks.flatten = qs ++ encode text) : qs.length + wide text ≤ wide (decodeEach chunks) := by
  induction chunks generalizing qs text with
  | nil =>
    obtain ⟨rfl, htext⟩ := List.append_eq_nil_iff.mp hflat.symm
    obtain rfl : text = [] := encode_inj htext
    exact Nat.le_refl _
  | cons bs chunks ih =>
    rw [List.flatten_cons] at hflat
    rw [decodeEach_cons, wide_append]
    rcases List.append_eq_append_iff.mp hflat with ⟨qs', rfl, hrest⟩ | ⟨as, rfl, hrest⟩
    · have hdecode := decode_isContinuation_append []
        fun b hb => hqs b (List.mem_append_left qs' hb)
      rw [List.append_nil] at hdecode
      have hle := ih (fun b hb => hqs b (List.mem_append_right bs hb)) hrest
      rw [hdecode, wide_append, wide_replicate, List.length_append]
      omega
    · rw [decode_isContinuation_append _ hqs, wide_append, wide_replicate]
      rcases encode_eq_append hrest with
        ⟨cs, ds, rfl, rfl, hds⟩ | ⟨cs, c, ds, ps, qs', rfl, hp, hq, hchar, rfl, hds⟩
      · have hle := ih (show ∀ b ∈ ([] : List UInt8), isContinuation b by simp) hds
        rw [decode_encode, wide_append]
        rw [List.length_nil] at hle
        omega
      · obtain ⟨n, hn⟩ := decode_part hp hq hchar
        have hle := ih (isContinuation_of_append hp hchar) hds
        have hone := wide_cons_le c ds
        rw [decode_encode_append, hn, wide_append, wide_append, wide_replicate]
        omega

/-- A character that is cut becomes two or more. -/
theorem wide_lt_decodeEach (h : ¬Whole chunks) (hflat : chunks.flatten = encode text) :
    wide text < wide (decodeEach chunks) := by
  induction chunks generalizing text with
  | nil => simp [Whole] at h
  | cons bs chunks ih =>
    rw [List.flatten_cons] at hflat
    rw [decodeEach_cons, wide_append]
    rcases encode_eq_append hflat.symm with
      ⟨cs, ds, rfl, rfl, hds⟩ | ⟨cs, c, ds, ps, qs, rfl, hp, hq, hchar, rfl, hds⟩
    · have hrest : ¬Whole chunks := by
        intro hwhole
        exact h (List.forall_mem_cons.mpr ⟨⟨cs, rfl⟩, hwhole⟩)
      have hlt := ih hrest hds
      rw [decode_encode, wide_append]
      omega
    · obtain ⟨n, hn⟩ := decode_part hp hq hchar
      have hle := wide_le_decodeEach (isContinuation_of_append hp hchar) hds
      have hone := wide_cons_le c ds
      have hpos := List.length_pos_of_ne_nil hq
      rw [decode_encode_append, hn, wide_append, wide_append, wide_replicate]
      omega

theorem wide_pos_of_part (hp : ps ≠ []) (hq : qs ≠ []) (h : ps ++ qs = String.utf8EncodeChar c) :
    127 < c.val := by
  obtain ⟨b, bs, heq, _, _, hwide⟩ := utf8EncodeChar_eq c
  obtain ⟨a, as, rfl⟩ := List.exists_cons_of_ne_nil hp
  apply hwide.mpr
  rintro rfl
  rw [heq, List.cons_append] at h
  exact hq (List.append_eq_nil_iff.mp (List.cons.inj h).2).2

theorem whole_of_wide_eq_zero (h : wide text = 0) (hflat : chunks.flatten = encode text) :
    Whole chunks := by
  induction chunks generalizing text with
  | nil => simp [Whole]
  | cons bs chunks ih =>
    rw [List.flatten_cons] at hflat
    rcases encode_eq_append hflat.symm with
      ⟨cs, ds, rfl, rfl, hds⟩ | ⟨cs, c, ds, ps, qs, rfl, hp, hq, hchar, rfl, hds⟩
    · rw [wide_append] at h
      exact List.forall_mem_cons.mpr ⟨⟨cs, rfl⟩, ih (by omega) hds⟩
    · have hwide := wide_pos_of_part hp hq hchar
      rw [wide_append, wide, wide, List.countP_cons_of_pos (by simpa using hwide)] at h
      omega

/-- A text can be cut anywhere if and only if it is in ASCII. -/
theorem forall_whole_iff :
    (∀ chunks, chunks.flatten = encode text → Whole chunks) ↔ wide text = 0 := by
  constructor
  · intro hall
    by_contra hpos
    obtain ⟨c, hc, hwide⟩ := List.countP_pos_iff.mp (Nat.pos_of_ne_zero hpos)
    obtain ⟨cs, ds, rfl⟩ := List.append_of_mem hc
    obtain ⟨b, bs, heq, _, hbs, hmore⟩ := utf8EncodeChar_eq c
    have hne : bs ≠ [] := hmore.mp (by simpa using hwide)
    have hflat : [encode cs ++ [b], bs ++ encode ds].flatten = encode (cs ++ c :: ds) := by
      simp [heq]
    have htext := decodeEach_of_whole (hall _ hflat) hflat
    obtain ⟨n, hn⟩ := decode_part (List.cons_ne_nil b []) hne heq.symm
    have hcount := congrArg wide htext
    rw [decodeEach_cons, decodeEach_cons, decode_encode_append, hn,
      decode_isContinuation_append _ hbs] at hcount
    simp only [wide_append, wide_replicate, decode_encode] at hcount
    have hone := wide_cons_le c ds
    have hlength := List.length_pos_of_ne_nil hne
    omega
  · exact fun h chunks => whole_of_wide_eq_zero h

end Utf8
