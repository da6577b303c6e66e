import FrameScript.Decimal.Format
import FrameScript.Decimal.Reader
import Mathlib

/-!
# The parts of a number

A number that is finite is a sign, a mantissa and an exponent, and these fix it. The mantissa and
the exponent are normal or subnormal.
-/

namespace FrameScript.Decimal

open Float.Model Float.Model.UnpackedFloat

/-- The mantissa and the exponent of a positive binary number of the format. -/
structure Legal (m : Nat) (e : Int) : Prop where
  pos : 0 < m
  lt : m < 2 ^ 53
  le : -1074 ≤ e
  subnormal : m < 2 ^ 52 → e = -1074

/-- The parts of a number that is finite are legal. -/
theorem legal_of_unpack {bits : BitVec Float.Model.Format.binary64.numBits} {sign : Sign} {m : Nat}
    {e : Int} {hpos : 0 < m}
    (h : UnpackedFloat.unpack Float.Model.Format.binary64 bits = .finite sign m e hpos) :
    Legal m e := by
  unfold UnpackedFloat.unpack at h
  dsimp only at h
  split at h
  · split at h <;> cases h
  · next hfull =>
    split at h
    · next hzero =>
      split at h
      · cases h
      · simp only [UnpackedFloat.finite.injEq] at h
        obtain ⟨-, hm, he⟩ := h
        have hlt : m < 2 ^ 52 := hm ▸ (unpackMantissa bits).isLt
        obtain rfl : e = -1074 := by
          rw [← he, hzero]
          rfl
        exact ⟨hpos, by omega, by omega, fun _ => rfl⟩
    · next hzero =>
      simp only [UnpackedFloat.finite.injEq] at h
      obtain ⟨-, hm, he⟩ := h
      have hmantissa := (unpackMantissa bits).isLt
      have hsum : m = 2 ^ 52 + (unpackMantissa bits).toNat := by
        rw [← hm, BitVec.toNat_append, ← Nat.shiftLeft_add_eq_or_of_lt hmantissa]
        rfl
      obtain rfl : e = ((unpackExponent bits).toNat : Int) - 1075 := by
        rw [← he]
        rfl
      have hpositive : (unpackExponent bits).toNat ≠ 0 := fun heq =>
        hzero (BitVec.eq_of_toNat_eq heq)
      change (unpackMantissa bits).toNat < 2 ^ 52 at hmantissa
      exact ⟨hpos, by omega, by omega, fun hlt => by omega⟩

/-- A number is what its parts are packed into. -/
theorem ofModel_pack {x : Float} {u : UnpackedFloat} (h : x.toModel.unpack = u) :
    Float.ofModel (Float.Model.pack u) = x := by
  have hbits : UnpackedFloat.pack Float.Model.Format.binary64 u = x.toModel.toBits.toBitVec := by
    rw [← h]
    exact pack_unpack_of_valid x.toModel.valid
  have hmodel : Float.Model.pack u = x.toModel := by
    rw [Float.Model.mk.injEq]
    exact congrArg UInt64.ofBitVec hbits
  rw [hmodel]

/-! ### Signs -/

/-- The sign of a number, if it is one. -/
def signOf? : UnpackedFloat → Option Sign
  | .notANumber => none
  | .infinity sign | .zero sign | .finite sign .. => some sign

/-- The sign bit of packed bits is the sign. -/
theorem unpackSign_pack {u : UnpackedFloat} {sign : Sign} (h : signOf? u = some sign) :
    unpackSign (UnpackedFloat.pack Float.Model.Format.binary64 u) = sign.toBitVec := by
  cases u with
  | notANumber => cases h
  | infinity s | zero s =>
    cases h
    exact unpackSign_packComponents _ _ _
  | finite s m e hpos =>
    cases h
    rw [UnpackedFloat.pack]
    dsimp only
    split
    · exact unpackSign_packComponents _ _ _
    · split <;> exact unpackSign_packComponents _ _ _

/-- The sign of a number that is unpacked is the sign bit. -/
theorem signOf?_unpack {bits : BitVec Float.Model.Format.binary64.numBits} {sign : Sign}
    (h : signOf? (UnpackedFloat.unpack Float.Model.Format.binary64 bits) = some sign) :
    sign = Sign.ofBitVec (unpackSign bits) := by
  unfold UnpackedFloat.unpack at h
  dsimp only at h
  split at h
  · split at h
    · exact (Option.some.inj h).symm
    · cases h
  · split at h
    · split at h <;> exact (Option.some.inj h).symm
    · exact (Option.some.inj h).symm

/-- Whether a number is finite and its sign bit is clear. -/
def isLiteral (x : Float) : Bool :=
  match x.toModel.unpack with
  | .zero .positive | .finite .positive _ _ _ => true
  | _ => false

/-- A finite number that was packed with a positive sign is a literal. -/
theorem isLiteral_pack {u : UnpackedFloat} (h : signOf? u = some .positive)
    (hfinite : (Float.ofModel (Float.Model.pack u)).isFinite = true) :
    isLiteral (.ofModel (Float.Model.pack u)) = true := by
  have hsign (sign : Sign) (hsign : signOf? (Float.Model.pack u).unpack = some sign) :
      sign = .positive := by
    have hbit := signOf?_unpack hsign
    change sign = Sign.ofBitVec (unpackSign (UnpackedFloat.pack _ u)) at hbit
    rwa [unpackSign_pack h] at hbit
  change (Float.Model.pack u).unpack.isFinite = true at hfinite
  change (match (Float.Model.pack u).unpack with
    | .zero .positive | .finite .positive _ _ _ => true
    | _ => false) = true
  cases hcase : (Float.Model.pack u).unpack with
  | notANumber => simp [hcase, UnpackedFloat.isFinite] at hfinite
  | infinity sign => simp [hcase, UnpackedFloat.isFinite] at hfinite
  | zero sign | finite sign m e hpos =>
    obtain rfl := hsign sign (by rw [hcase]; rfl)
    rfl

end FrameScript.Decimal
