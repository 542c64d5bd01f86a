import MyLifeHome.Components.Loop

/-!
# Times in machine words

The fields of a `struct timeval` are `long`s, of `w` bits, and an interval is an `unsigned long`.
The loop reckons with them as with integers, as long as the seconds fit.
-/
namespace MyLifeHome.Components.Loop.Word

variable {w : Nat}

structure Timeval (w : Nat) where
  tv_sec : BitVec w
  tv_usec : BitVec w
  deriving DecidableEq

/-- The numbers that are in the words. -/
def Timeval.value (a : Timeval w) : Loop.Timeval := ⟨a.tv_sec.toInt, a.tv_usec.toInt⟩

def compare_timeval (a b : Timeval w) : Int :=
  if b.tv_sec.slt a.tv_sec then 1
  else if a.tv_sec.slt b.tv_sec then -1
  else if b.tv_usec.slt a.tv_usec then 1
  else if a.tv_usec.slt b.tv_usec then -1
  else 0

/-- The sums are unsigned, the comparison is not. -/
def add_ms_to_timeval (a : Timeval w) (interval_ms : BitVec w) : Timeval w :=
  let tv_sec := a.tv_sec + interval_ms / 1000#w
  let tv_usec := a.tv_usec + interval_ms % 1000#w * 1000#w
  if (1000000#w).slt tv_usec then ⟨tv_sec + 1#w, tv_usec - 1000000#w⟩ else ⟨tv_sec, tv_usec⟩

/-! ## Comparison -/

theorem compare_timeval_value (a b : Timeval w) :
    compare_timeval a b = Loop.compare_timeval a.value b.value := by
  unfold compare_timeval Loop.compare_timeval Timeval.value
  grind [BitVec.slt_iff_toInt_lt]

/-- Normalised times compare like the instants. -/
theorem sign_compare_timeval {a b : Loop.Timeval} (ha : a.Normal) (hb : b.Normal) :
    (Loop.compare_timeval a b).sign = (a.micros - b.micros).sign := by
  obtain ⟨halow, hahigh⟩ := ha
  obtain ⟨hblow, hbhigh⟩ := hb
  unfold Loop.compare_timeval
  split_ifs with hgt hlt hugt hult
  · have hpos : 0 < a.micros - b.micros := by unfold Timeval.micros; omega
    rw [Int.sign_eq_one_of_pos hpos]
    rfl
  · have hneg : a.micros - b.micros < 0 := by unfold Timeval.micros; omega
    rw [Int.sign_eq_neg_one_of_neg hneg]
    rfl
  · have hpos : 0 < a.micros - b.micros := by unfold Timeval.micros; omega
    rw [Int.sign_eq_one_of_pos hpos]
    rfl
  · have hneg : a.micros - b.micros < 0 := by unfold Timeval.micros; omega
    rw [Int.sign_eq_neg_one_of_neg hneg]
    rfl
  · have hzero : a.micros - b.micros = 0 := by unfold Timeval.micros; omega
    rw [hzero]

/-! ## Sums -/

theorem two_pow_le (hw : 32 ≤ w) : (2 : Nat) ^ 32 ≤ 2 ^ w := Nat.pow_le_pow_right (by decide) hw

/-- A small number of a register is read as it is. -/
theorem toInt_of_small {x : BitVec w} (hw : 32 ≤ w) (hx : x.toNat < 2 ^ 31) : x.toInt = x.toNat := by
  have hpow := two_pow_le hw
  apply BitVec.toInt_eq_toNat_of_lt
  omega

theorem toNat_ofNat_of_small {n : Nat} (hw : 32 ≤ w) (hn : n < 2 ^ 31) : (BitVec.ofNat w n).toNat = n := by
  have hpow := two_pow_le hw
  rw [BitVec.toNat_ofNat]
  apply Nat.mod_eq_of_lt
  omega

theorem toInt_ofNat_of_small {n : Nat} (hw : 32 ≤ w) (hn : n < 2 ^ 31) : (BitVec.ofNat w n).toInt = n := by
  have hnat := toNat_ofNat_of_small hw hn
  rw [toInt_of_small hw (by omega), hnat]

/-- A number that fits is left by the wrapping. -/
theorem bmod_of_small {x : Int} (hw : 32 ≤ w) (hlow : -2 ^ 31 ≤ x) (hhigh : x < 2 ^ 31) :
    x.bmod (2 ^ w) = x := by
  have hpow := two_pow_le hw
  apply Int.bmod_eq_of_le_mul_two <;> omega

theorem tv_usec_toInt (hw : 32 ≤ w) {a : Timeval w} (ha : a.value.Normal) (interval_ms : BitVec w) :
    (a.tv_usec + interval_ms % 1000#w * 1000#w).toInt =
      a.tv_usec.toInt + interval_ms.toNat % 1000 * 1000 := by
  obtain ⟨hlow, hhigh⟩ : 0 ≤ a.tv_usec.toInt ∧ a.tv_usec.toInt < 1000000 := ha
  have hpow := two_pow_le hw
  have hthousand : (1000#w).toNat = 1000 := toNat_ofNat_of_small hw (by decide)
  have hr : (interval_ms % 1000#w * 1000#w).toNat = interval_ms.toNat % 1000 * 1000 := by
    rw [BitVec.toNat_mul, BitVec.toNat_umod, hthousand]
    apply Nat.mod_eq_of_lt
    omega
  have hrInt : (interval_ms % 1000#w * 1000#w).toInt = interval_ms.toNat % 1000 * 1000 := by
    rw [toInt_of_small hw (by omega), hr]
    rfl
  rw [BitVec.toInt_add, hrInt]
  apply bmod_of_small hw <;> omega

theorem tv_sec_toInt (hw : 32 ≤ w) (tv_sec interval_ms : BitVec w) :
    (tv_sec + interval_ms / 1000#w).toInt = (tv_sec.toInt + interval_ms.toNat / 1000).bmod (2 ^ w) := by
  have hpow := two_pow_le hw
  have hthousand : (1000#w).toNat = 1000 := toNat_ofNat_of_small hw (by decide)
  have hq : (interval_ms / 1000#w).toInt = interval_ms.toNat / 1000 := by
    have hlt := interval_ms.isLt
    rw [BitVec.toInt_eq_toNat_of_lt] <;> rw [BitVec.toNat_udiv, hthousand]
    · rfl
    · omega
  rw [BitVec.toInt_add, hq]

/-- The seconds wrap around, the microseconds do not come near. -/
theorem add_ms_to_timeval_value (hw : 32 ≤ w) {a : Timeval w} (ha : a.value.Normal)
    (interval_ms : BitVec w) :
    (add_ms_to_timeval a interval_ms).value =
      { Loop.add_ms_to_timeval a.value interval_ms.toNat with
        tv_sec := (Loop.add_ms_to_timeval a.value interval_ms.toNat).tv_sec.bmod (2 ^ w) } := by
  have hsec := tv_sec_toInt hw a.tv_sec interval_ms
  have husec := tv_usec_toInt hw ha interval_ms
  obtain ⟨hlow, hhigh⟩ : 0 ≤ a.tv_usec.toInt ∧ a.tv_usec.toInt < 1000000 := ha
  have hmillion : (1000000#w).toInt = 1000000 := toInt_ofNat_of_small hw (by decide)
  unfold add_ms_to_timeval Loop.add_ms_to_timeval Timeval.value
  simp only [BitVec.slt_iff_toInt_lt, husec, hmillion]
  split_ifs with hcarry
  · have hone : (1#w).toInt = 1 := toInt_ofNat_of_small hw (by decide)
    have hrest : (a.tv_usec + interval_ms % 1000#w * 1000#w - 1000000#w).toInt =
        a.tv_usec.toInt + interval_ms.toNat % 1000 * 1000 - 1000000 := by
      rw [BitVec.toInt_sub, husec, hmillion]
      apply bmod_of_small hw <;> omega
    rw [BitVec.toInt_add, hsec, hone, Int.bmod_add_bmod, hrest]
  · rw [hsec, husec]

/-! ## When the arithmetic is exact -/

/-- The sum is normalised and is the time with the interval. -/
def Adds (a : Timeval w) (interval_ms : BitVec w) : Prop :=
  (add_ms_to_timeval a interval_ms).value.Normal ∧
    (add_ms_to_timeval a interval_ms).value.micros = a.value.micros + 1000 * interval_ms.toNat

/-- Normalised times compare like the instants that they denote. -/
def Compares (w : Nat) : Prop := ∀ a b : Timeval w, a.value.Normal → b.value.Normal →
  (compare_timeval a b).sign = (a.value.micros - b.value.micros).sign

theorem compares (w : Nat) : Compares w := by
  intro a b ha hb
  rw [compare_timeval_value]
  exact sign_compare_timeval ha hb

theorem bmod_eq_self_iff {x : Int} (hw : 32 ≤ w) :
    x.bmod (2 ^ w) = x ↔ -2 ^ (w - 1) ≤ x ∧ x < 2 ^ (w - 1) := by
  obtain ⟨v, rfl⟩ : ∃ v, w = v + 1 := ⟨w - 1, by omega⟩
  have hpow : (2 : Int) ^ (v + 1) = 2 * 2 ^ v := by rw [Int.pow_succ, Int.mul_comm]
  have hpos : (0 : Nat) < 2 ^ (v + 1) := Nat.two_pow_pos _
  rw [Int.bmod_eq_iff hpos, Nat.add_sub_cancel]
  push_cast
  rw [hpow]
  constructor
  · rintro ⟨hlow, hhigh, _⟩
    omega
  · rintro ⟨hlow, hhigh⟩
    refine ⟨by omega, by omega, ?_⟩
    rw [Int.sub_self]
    exact Int.dvd_zero _

/-- The sum of a normalised time is normalised, unless its microseconds come to a second to the dot. -/
theorem normal_add_ms_to_timeval_iff {a : Loop.Timeval} (ha : a.Normal) (interval_ms : Int) :
    (Loop.add_ms_to_timeval a interval_ms).Normal ↔
      a.tv_usec + interval_ms % 1000 * 1000 ≠ 1000000 := by
  obtain ⟨hlow, hhigh⟩ := ha
  unfold Loop.add_ms_to_timeval Timeval.Normal
  dsimp only
  split_ifs <;> dsimp only <;> omega

theorem tv_sec_le_add_ms_to_timeval (a : Loop.Timeval) {interval_ms : Int} (h : 0 ≤ interval_ms) :
    a.tv_sec ≤ (Loop.add_ms_to_timeval a interval_ms).tv_sec := by
  unfold Loop.add_ms_to_timeval
  dsimp only
  split_ifs <;> dsimp only <;> omega

/-- The sum is exact unless its microseconds come to a second to the dot or its seconds do not fit. -/
theorem adds_iff (hw : 32 ≤ w) (a : Timeval w) (ha : a.value.Normal) (interval_ms : BitVec w) :
    (Adds a interval_ms ∧ Compares w) ↔
      a.tv_usec.toInt + interval_ms.toNat % 1000 * 1000 ≠ 1000000 ∧
      (a.value.micros + 1000 * interval_ms.toNat) / 1000000 < 2 ^ (w - 1) := by
  have hvalue := add_ms_to_timeval_value hw ha interval_ms
  have hmicros := micros_add_ms_to_timeval a.value interval_ms.toNat
  have hnormal := normal_add_ms_to_timeval_iff ha interval_ms.toNat
  have hle := tv_sec_le_add_ms_to_timeval a.value (Int.natCast_nonneg interval_ms.toNat)
  set sum := Loop.add_ms_to_timeval a.value interval_ms.toNat
  have hfirst : -2 ^ (w - 1) ≤ sum.tv_sec := by
    have hsec : -2 ^ (w - 1) ≤ a.value.tv_sec := BitVec.le_toInt a.tv_sec
    omega
  have hfits := bmod_eq_self_iff (x := sum.tv_sec) hw
  rw [and_iff_left (compares w), Adds, hvalue, ← hmicros]
  constructor
  · rintro ⟨hwrapped, hsame⟩
    have hsumNormal : sum.Normal := hwrapped
    have hself : sum.tv_sec.bmod (2 ^ w) = sum.tv_sec := by
      unfold Timeval.micros at hsame
      dsimp only at hsame
      omega
    refine ⟨hnormal.mp hsumNormal, ?_⟩
    obtain ⟨hlow, hhigh⟩ := hsumNormal
    have hlast := (hfits.mp hself).2
    unfold Timeval.micros
    omega
  · rintro ⟨hne, hlt⟩
    have hsumNormal := hnormal.mpr hne
    have hself : sum.tv_sec.bmod (2 ^ w) = sum.tv_sec := by
      refine hfits.mpr ⟨hfirst, ?_⟩
      obtain ⟨hlow, hhigh⟩ := hsumNormal
      unfold Timeval.micros at hlt
      omega
    rw [hself]
    exact ⟨hsumNormal, rfl⟩

/-- A second and a half after 1.3 s. -/
theorem adds_secondAndHalf : Adds (⟨1#64, 300000#64⟩ : Timeval 64) 1500#64 ∧ Compares 64 :=
  (adds_iff (by decide) ⟨1#64, 300000#64⟩ (by decide) 1500#64).mpr (by decide)

/-- Two halves of a second are a million microseconds. -/
theorem not_adds_halves : ¬∀ w, 32 ≤ w → ∀ a : Timeval w, a.value.Normal → ∀ interval_ms,
    Adds a interval_ms ∧ Compares w := by
  intro h
  have hnormal := (h 64 (by decide) ⟨0#64, 500000#64⟩ (by decide) 500#64).1.1
  exact absurd hnormal (by decide)

end MyLifeHome.Components.Loop.Word
