import PropertyTree.Proofs.Number.Denotation
import PropertyTree.Schema.Kind

/-! # Normalization is exact

A number is stored as one that denotes the same rational. It is stored as an integer when it is
whole or is a float that denotes an integer of 64 bits with sign; other floats are kept, those from
`2 ^ 63` up included. Outside that range, up to `2 ^ 64`, stored numbers are equal exactly when they
denote the same rational. The integer kind looks at the stored form: of the numbers in that range it
accepts the whole ones only.
-/

namespace PropertyTree

namespace Number

theorem normalize_of_integral? {f : Binary64} {z : ℤ} (h : integral? f = some z) :
    ∃ inRange, (float f).normalize = .whole z inRange := by
  obtain ⟨_, hlow, hhigh⟩ := integral?_eq_some_iff.mp h
  have inRange : -0x8000_0000_0000_0000 ≤ z ∧ z < 0x1_0000_0000_0000_0000 := by omega
  have hwhole : ofInt? z = some (.whole z inRange) := dif_pos inRange
  exact ⟨inRange, by rw [normalize, h, Option.bind_some, hwhole, Option.getD_some]⟩

theorem normalize_of_not_integral? {f : Binary64} (h : integral? f = none) :
    (float f).normalize = .float f := normalize_of_isNormal h

theorem toRat_normalize (n : Number) : n.normalize.toRat = n.toRat := by
  cases n with
  | whole n _ => rfl
  | float f =>
      cases h : integral? f with
      | none => rw [normalize_of_not_integral? h]
      | some z =>
          obtain ⟨_, hwhole⟩ := normalize_of_integral? h
          rw [hwhole, toRat_whole, toRat_float, (integral?_eq_some_iff.mp h).1]

theorem isWhole_normalize_iff (n : Number) :
    n.normalize.isWhole = true ↔
      n.isWhole = true ∨ ∃ z : ℤ, n.toRat = z ∧ -2 ^ 63 ≤ z ∧ z < 2 ^ 63 := by
  cases n with
  | whole n _ => exact ⟨Or.inl, fun _ => rfl⟩
  | float f =>
      have hfloat : ¬ (float f).isWhole = true := Bool.false_ne_true
      rw [or_iff_right hfloat, toRat_float]
      cases h : integral? f with
      | none =>
          rw [normalize_of_not_integral? h]
          exact iff_of_false Bool.false_ne_true (integral?_eq_none_iff.mp h)
      | some z =>
          obtain ⟨_, hwhole⟩ := normalize_of_integral? h
          rw [hwhole]
          exact iff_of_true rfl ⟨z, integral?_eq_some_iff.mp h⟩

/-- A float in normal form denotes no integer, unless one of 64 bits without sign only. -/
theorem toRat_float_ne_whole {f : Binary64} (hnormal : (float f).IsNormal) {n : ℤ}
    (hn : -0x8000_0000_0000_0000 ≤ n ∧ n < 0x1_0000_0000_0000_0000)
    (hgap : ¬ (2 ^ 63 ≤ (n : ℚ) ∧ (n : ℚ) < 2 ^ 64)) : f.toRat ≠ n := by
  intro h
  refine integral?_eq_none_iff.mp hnormal ⟨n, h, hn.1, ?_⟩
  by_contra hlt
  have hlow : 2 ^ 63 ≤ n := not_lt.mp hlt
  have hhigh : n < 2 ^ 64 := hn.2
  exact hgap ⟨by exact_mod_cast hlow, by exact_mod_cast hhigh⟩

theorem toRat_float_ne_zero {f : Binary64} (hnormal : (float f).IsNormal) : f.toRat ≠ 0 := by
  have h := toRat_float_ne_whole hnormal (n := 0) (by decide) (by norm_num)
  rwa [Int.cast_zero] at h

/-- Numbers in normal form are told apart by what they denote. -/
theorem eq_of_toRat_eq {m n : Number} (hm : m.IsNormal) (hn : n.IsNormal)
    (hgap : ¬ (2 ^ 63 ≤ m.toRat ∧ m.toRat < 2 ^ 64)) (h : m.toRat = n.toRat) : m = n := by
  cases m with
  | whole a ha =>
      cases n with
      | whole b hb =>
          have hab : a = b := Int.cast_inj.mp h
          cases hab
          rfl
      | float g => exact absurd h.symm (toRat_float_ne_whole hn ha hgap)
  | float f =>
      cases n with
      | whole b hb =>
          rw [h] at hgap
          exact absurd h (toRat_float_ne_whole hm hb hgap)
      | float g => rw [Binary64.eq_of_toRat_eq h (toRat_float_ne_zero hm)]

end Number

namespace Value

theorem ofNumber_inj {m n : Number} : ofNumber m = ofNumber n ↔ m.normalize = n.normalize := by
  rw [ofNumber, ofNumber, Value.number.injEq]

/-- A number is stored exactly: as a number that denotes the same rational, which is an integer when
it was written as one or is a float that denotes one of 64 bits with sign, and which is stored as it
is when it is stored again. Two numbers, none of them from `2 ^ 63` up to `2 ^ 64`, are stored alike
exactly when they denote the same rational. -/
theorem numbers_are_stored_exactly :
    (∀ n : Number, ∃ stored normal, ofJson? (.number n) = some (.number stored normal) ∧
      stored.toRat = n.toRat ∧
      (stored.isWhole = true ↔
        n.isWhole = true ∨ ∃ z : ℤ, n.toRat = z ∧ -2 ^ 63 ≤ z ∧ z < 2 ^ 63) ∧
      ofJson? (.number stored) = some (.number stored normal)) ∧
    ∀ m n : Number, ¬ (2 ^ 63 ≤ m.toRat ∧ m.toRat < 2 ^ 64) →
      ¬ (2 ^ 63 ≤ n.toRat ∧ n.toRat < 2 ^ 64) →
      (ofJson? (.number m) = ofJson? (.number n) ↔ m.toRat = n.toRat) := by
  constructor
  · intro n
    refine ⟨n.normalize, n.isNormal_normalize, rfl, n.toRat_normalize, n.isWhole_normalize_iff, ?_⟩
    exact ofJson?_toJson (.number n.normalize n.isNormal_normalize)
  · intro m n hm _
    rw [ofJson?, ofJson?, Option.some.injEq, ofNumber_inj]
    constructor
    · intro h
      rw [← m.toRat_normalize, ← n.toRat_normalize, h]
    · intro h
      apply Number.eq_of_toRat_eq m.isNormal_normalize n.isNormal_normalize
      · rwa [m.toRat_normalize]
      · rw [m.toRat_normalize, n.toRat_normalize, h]

theorem numbers_are_stored_exactly_zero :
    let negativeZero := Number.float (.zero true)
    let zero := Number.whole 0 (by decide)
    ¬ (2 ^ 63 ≤ negativeZero.toRat ∧ negativeZero.toRat < 2 ^ 64) ∧
      ¬ (2 ^ 63 ≤ zero.toRat ∧ zero.toRat < 2 ^ 64) ∧
      ofJson? (.number negativeZero) = ofJson? (.number zero) := by
  intro negativeZero zero
  have hnegative : negativeZero.toRat = (0 : ℤ) := Binary64.toInt?_eq_some_iff.mp (by decide)
  rw [Int.cast_zero] at hnegative
  have hzero : zero.toRat = 0 := Int.cast_zero
  have hgap : ¬ ((2 : ℚ) ^ 63 ≤ 0 ∧ (0 : ℚ) < 2 ^ 64) := by norm_num
  rw [hnegative, hzero]
  refine ⟨hgap, hgap, (numbers_are_stored_exactly.2 negativeZero zero ?_ ?_).mpr ?_⟩
  · rwa [hnegative]
  · rwa [hzero]
  · rw [hnegative, hzero]

end Value

namespace Kind

/-- The integer kind accepts a number when it denotes an integer of 64 bits, with or without sign,
and is written as an integer or lies below `2 ^ 63`. -/
theorem integer_accepts_iff (n : Number) :
    ∃ value, Value.ofJson? (.number n) = some value ∧
      (Kind.integer.accepts value = true ↔
        ∃ z : ℤ, n.toRat = z ∧ -2 ^ 63 ≤ z ∧ z < 2 ^ 64 ∧ (n.isWhole = true ∨ z < 2 ^ 63)) := by
  refine ⟨.ofNumber n, rfl, ?_⟩
  have haccepts : Kind.integer.accepts (.ofNumber n) = n.normalize.isWhole := rfl
  rw [haccepts, Number.isWhole_normalize_iff]
  constructor
  · rintro (hwhole | ⟨z, hz, hlow, hhigh⟩)
    · cases n with
      | whole z hz => exact ⟨z, rfl, hz.1, hz.2, Or.inl hwhole⟩
      | float f => cases hwhole
    · exact ⟨z, hz, hlow, by omega, Or.inr hhigh⟩
  · rintro ⟨z, hz, hlow, _, hwhole | hhigh⟩
    · exact Or.inl hwhole
    · exact Or.inr ⟨z, hz, hlow, hhigh⟩

/-- The float `1e19`, an integer of 64 bits without sign. -/
def tenToNineteen : Number := .float ⟨false, ⟨1086, by decide⟩, ⟨379212872629504, by decide⟩⟩

theorem toRat_tenToNineteen : tenToNineteen.toRat = (10 ^ 19 : ℤ) :=
  Binary64.toInt?_eq_some_iff.mp (by decide)

/-- A float beyond the signed integers is stored as a float, which is no integer to the kind. -/
theorem integer_rejects_float_beyond_signed :
    ¬ ∃ value, Value.ofJson? (.number tenToNineteen) = some value ∧
      (Kind.integer.accepts value = true ↔
        ∃ z : ℤ, tenToNineteen.toRat = z ∧ -2 ^ 63 ≤ z ∧ z < 2 ^ 64) := by
  rintro ⟨value, hvalue, haccepts⟩
  cases hvalue
  have hrejects : Kind.integer.accepts (.ofNumber tenToNineteen) = false := by decide
  rw [hrejects] at haccepts
  exact Bool.false_ne_true (haccepts.mpr ⟨10 ^ 19, toRat_tenToNineteen, by norm_num, by norm_num⟩)

end Kind

end PropertyTree
