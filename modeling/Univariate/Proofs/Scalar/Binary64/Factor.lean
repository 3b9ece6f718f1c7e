import Univariate.Proofs.Scalar.Binary64.Distance
import Univariate.Proofs.Scalar.Factor

/-!
# Factors and zeros in double precision

Negating turns one bit and nothing else, so that it passes through products. The sign of a zero
decides no sum but that of two zeros.
-/

open Float.Model Float.Model.UnpackedFloat

namespace Univariate.Binary64

variable {x x' y y' : Float}

/-! ### Negation -/

theorem unpack_packComponents_neg (s : Sign) (e : BitVec 11) (m : BitVec 52) :
    UnpackedFloat.unpack Format.binary64 (packComponents Format.binary64 (-s) e m) =
      (UnpackedFloat.unpack Format.binary64 (packComponents Format.binary64 s e m)).neg := by
  unfold UnpackedFloat.unpack
  simp only [unpackMantissa_packComponents, unpackExponent_packComponents,
    unpackSign_packComponents, Sign.ofBitVec_toBitVec]
  split
  · split <;> rfl
  · split
    · split <;> rfl
    · rfl

/-- Values that are no result of unpacking are turned around by packing too. -/
theorem unpack_pack_neg (u : UnpackedFloat) :
    (Float.Model.pack u.neg).unpack = (Float.Model.pack u).unpack.neg := by
  change UnpackedFloat.unpack Format.binary64 (UnpackedFloat.pack Format.binary64 u.neg) =
    (UnpackedFloat.unpack Format.binary64 (UnpackedFloat.pack Format.binary64 u)).neg
  cases u with
  | notANumber => rfl
  | infinity s => exact unpack_packComponents_neg s _ _
  | zero s => exact unpack_packComponents_neg s _ _
  | finite s m e hm =>
      unfold UnpackedFloat.neg UnpackedFloat.pack
      dsimp only
      split
      · exact unpack_packComponents_neg s _ _
      · split <;> exact unpack_packComponents_neg s _ _

protected theorem neg_neg (x : Float) : -(-x) = x := by
  have hneg : ∀ u : UnpackedFloat, u.neg.neg = u := by
    intro u
    cases u with
    | notANumber => rfl
    | infinity s => cases s <;> rfl
    | zero s => cases s <;> rfl
    | finite s m e hm => cases s <;> rfl
  change Float.ofModel (.pack (Float.Model.pack x.toModel.unpack.neg).unpack.neg) = x
  rw [unpack_pack_neg, hneg, pack_unpack_model, pack_unpack_model]

theorem roundWithAccuracy_neg (s : Sign) (m : Nat) (e : Int) :
    roundWithAccuracy Format.binary64 (-s) m e .exact =
      (roundWithAccuracy Format.binary64 s m e .exact).neg := by
  unfold roundWithAccuracy
  dsimp only
  split <;> rfl

theorem mul_unpacked_neg (u v : UnpackedFloat) :
    UnpackedFloat.mul Format.binary64 u.neg v = (UnpackedFloat.mul Format.binary64 u v).neg := by
  have hsign : ∀ s t : Sign, -s * t = -(s * t) := by
    rintro (_ | _) (_ | _) <;> rfl
  cases u with
  | notANumber => cases v <;> rfl
  | infinity s => cases v <;> simp [UnpackedFloat.mul, UnpackedFloat.neg, hsign]
  | zero s => cases v <;> simp [UnpackedFloat.mul, UnpackedFloat.neg, hsign]
  | finite s m e hm =>
      cases v with
      | finite t n f hn =>
          change roundWithAccuracy Format.binary64 (-s * t) (m * n) (e + f) .exact = _
          rw [hsign, roundWithAccuracy_neg]
          rfl
      | _ => simp [UnpackedFloat.mul, UnpackedFloat.neg, hsign]

protected theorem neg_mul (x y : Float) : -x * y = -(x * y) := by
  change Float.ofModel (.pack (.mul Format.binary64 (Float.Model.pack x.toModel.unpack.neg).unpack
    y.toModel.unpack)) = .ofModel (.pack (Float.Model.pack (.mul Format.binary64 x.toModel.unpack
      y.toModel.unpack)).unpack.neg)
  rw [unpack_pack_neg, pack_unpack_model, mul_unpacked_neg, ← unpack_pack_neg, pack_unpack_model]

protected theorem mul_comm (x y : Float) : x * y = y * x := by
  have hsign : ∀ s t : Sign, s * t = t * s := by
    rintro (_ | _) (_ | _) <;> rfl
  have hcomm : ∀ u v : UnpackedFloat,
      UnpackedFloat.mul Format.binary64 u v = UnpackedFloat.mul Format.binary64 v u := by
    intro u v
    cases u <;> cases v <;> simp [UnpackedFloat.mul, hsign, Nat.mul_comm, Int.add_comm]
  change Float.ofModel (.pack _) = .ofModel (.pack _)
  rw [hcomm]

instance : Scalar.LawfulFactor Float where
  mul_one := Scalar.LawfulSign.mul_one
  mul_neg_one := Scalar.LawfulSign.mul_neg_one
  one_mul x := by rw [Binary64.mul_comm, Scalar.LawfulSign.mul_one]
  neg_one_mul x := by rw [Binary64.mul_comm, Scalar.LawfulSign.mul_neg_one]
  neg_mul := Binary64.neg_mul
  neg_neg := Binary64.neg_neg
  neg_one_lt_zero := by decide
  not_one_lt_zero := by decide

/-! ### Zeros in sums -/

theorem amount_eq_amount (hx : x.isFinite = true) (hx' : x'.isFinite = true)
    (h : position x = position x') : amount x = amount x' := by
  have hxn := isNaN_of_isFinite hx
  have hxn' := isNaN_of_isFinite hx'
  apply le_antisymm
  · exact amount_le_amount hx hx' (le_of_position hxn hxn' h.le)
  · exact amount_le_amount hx' hx (le_of_position hxn' hxn h.ge)

/-- The same number is the same value, or a zero with either sign. -/
theorem isFinite_of_beq (h : (x == x') = true) :
    (x.isFinite = true ∧ x'.isFinite = true) ∨ (¬x.isFinite = true ∧ x' = x) := by
  obtain ⟨-, -, rfl | ⟨rfl, rfl⟩ | ⟨rfl, rfl⟩⟩ := Float.beq_iff_ne_nan_and_eq.mp h
  · by_cases hx : x.isFinite = true
    · exact Or.inl ⟨hx, hx⟩
    · exact Or.inr ⟨hx, rfl⟩
  · exact Or.inl ⟨by decide, by decide⟩
  · exact Or.inl ⟨by decide, by decide⟩

theorem isNaN_add_left (y : Float) (hx : x.isNaN = true) : (x + y).isNaN = true := by
  by_contra h
  have hnot := (isNaN_of_isNaN_add (Bool.not_eq_true _ ▸ h)).1
  rw [hx] at hnot
  exact Bool.noConfusion hnot

theorem isNaN_add_right (x : Float) (hy : y.isNaN = true) : (x + y).isNaN = true := by
  by_contra h
  have hnot := (isNaN_of_isNaN_add (Bool.not_eq_true _ ▸ h)).2
  rw [hy] at hnot
  exact Bool.noConfusion hnot

theorem agree_refl (x : Float) : Scalar.Agree x x := by
  cases hx : x.isNaN with
  | true => exact Or.inl ⟨hx, hx⟩
  | false => exact Or.inr (beq_iff.mpr ⟨hx, hx, rfl⟩)

theorem agree_add_of_beq (hx : (x == x') = true) (hy : (y == y') = true) :
    Scalar.Agree (x + y) (x' + y') := by
  obtain ⟨hxn, -, hposition⟩ := beq_iff.mp hx
  obtain ⟨hyn, -, hposition'⟩ := beq_iff.mp hy
  rcases isFinite_of_beq hx with ⟨hfx, hfx'⟩ | ⟨hix, rfl⟩
  · rcases isFinite_of_beq hy with ⟨hfy, hfy'⟩ | ⟨hiy, rfl⟩
    · obtain ⟨hsum, hkey⟩ := add_finite hfx hfy
      obtain ⟨hsum', hkey'⟩ := add_finite hfx' hfy'
      refine Or.inr (beq_iff.mpr ⟨hsum, hsum', ?_⟩)
      rw [hkey, hkey', amount_eq_amount hfx hfx' hposition, amount_eq_amount hfy hfy' hposition']
    · obtain ⟨s, rfl⟩ := eq_infinity_of_not_finite hyn hiy
      rw [add_infinity hfx, add_infinity hfx']
      exact agree_refl _
  · rcases isFinite_of_beq hy with ⟨hfy, hfy'⟩ | ⟨hiy, rfl⟩
    · obtain ⟨s, rfl⟩ := eq_infinity_of_not_finite hxn hix
      rw [infinity_add hfy, infinity_add hfy']
      exact agree_refl _
    · exact agree_refl _

/-- What is added to zero stays the same number. -/
theorem zero_add_position (hy : y.isNaN = false) :
    (0 + y).isNaN = false ∧ position (0 + y) = position y := by
  by_cases hfinite : y.isFinite = true
  · obtain ⟨hnan, hposition⟩ := add_finite (x := 0) (by decide) hfinite
    have hzero : amount (0 : Float) = 0 := by decide
    rw [hzero, zero_add, roundedKey_amount hfinite] at hposition
    exact ⟨hnan, hposition⟩
  · obtain ⟨s, rfl⟩ := eq_infinity_of_not_finite hy hfinite
    rw [add_infinity (x := 0) (by decide)]
    exact ⟨hy, rfl⟩

theorem zero_beq_zero_add (y : Float) : (0 == 0 + y) = (y == 0) := by
  rw [Bool.eq_iff_iff, beq_iff, beq_iff]
  cases hy : y.isNaN with
  | true =>
      rw [isNaN_add_right 0 hy]
      exact iff_of_false nofun nofun
  | false =>
      obtain ⟨hnan, hposition⟩ := zero_add_position hy
      rw [hnan, hposition, eq_comm (a := position y)]
      exact ⟨fun h => ⟨rfl, h.1, h.2.2⟩, fun h => ⟨h.2.1, rfl, h.2.2⟩⟩

instance : Scalar.LawfulAgree Float where
  refl := agree_refl
  neg_zero := Or.inr (by decide)
  neg_nan := Or.inl (by decide)
  add {x x' y y'} hx hy := by
    rcases hx with ⟨hx, hx'⟩ | hx
    · exact Or.inl ⟨isNaN_add_left y hx, isNaN_add_left y' hx'⟩
    · rcases hy with ⟨hy, hy'⟩ | hy
      · exact Or.inl ⟨isNaN_add_right x hy, isNaN_add_right x' hy'⟩
      · exact agree_add_of_beq hx hy

end Univariate.Binary64
