import AccessPolicy.Decimal.Numeral
import Mathlib

/-!
# Finite numbers

The scaled reading of a numeral gives a finite double or nothing (`Numeral.isFinite_of_scaled?`). Multiplying by a power
of ten may overflow, which is looked for; dividing by one cannot, as a significand of 64 bits is far from the end of the
range. That is seen by the place of the leading bit: as it is bounded here, a significand that is stored and divided by
two powers of ten has it below 400, and the range goes on to 1024.

Contents:
* `HasMagnitude` — what is known of the mantissa and the exponent of a number that is not infinite;
* `exists_hasMagnitude`, `hasMagnitude_pack` — what a double holds, and what is left of a number when it is stored;
* `hasMagnitude_round`, `hasMagnitude_round_normal` — rounding;
* `Within` — doubles that are not negative, with a bound on the leading bit; `Within.div`, `within_ofNat`;
* `isDivisor_powerOfTen`;
* `isFinite_neg`, `beq_self_of_isFinite`;
* **`Numeral.isFinite_of_scaled?`**.
-/

namespace AccessPolicy.Decimal

open Float.Model Float.Model.UnpackedFloat

/-! ## The leading bit -/

theorem log2_le_of_lt {n k : Nat} (h : n < 2 ^ (k + 1)) : n.log2 ≤ k := by
  by_cases hn : n = 0
  · subst hn
    exact Nat.zero_le k
  · exact Nat.lt_succ_iff.mp ((Nat.log2_lt hn).mpr h)

theorem log2_mono {m n : Nat} (h : m ≤ n) : m.log2 ≤ n.log2 := by
  rw [Nat.log2_eq_log_two, Nat.log2_eq_log_two]
  exact Nat.log_mono_right h

theorem log2_mul_le (m n : Nat) : (m * n).log2 ≤ m.log2 + n.log2 + 1 := by
  apply log2_le_of_lt
  have hpow : 2 ^ (m.log2 + n.log2 + 1 + 1) = 2 ^ (m.log2 + 1) * 2 ^ (n.log2 + 1) := by
    rw [← Nat.pow_add]
    congr 1
    omega
  rw [hpow]
  exact Nat.mul_lt_mul'' Nat.lt_log2_self Nat.lt_log2_self

theorem log2_shiftLeft_le (m k : Nat) : (m <<< k).log2 ≤ m.log2 + k := by
  apply log2_le_of_lt
  have hpow : 2 ^ (m.log2 + k + 1) = 2 ^ (m.log2 + 1) * 2 ^ k := by
    rw [← Nat.pow_add]
    congr 1
    omega
  rw [Nat.shiftLeft_eq, hpow]
  exact Nat.mul_lt_mul_of_pos_right Nat.lt_log2_self (Nat.two_pow_pos k)

theorem log2_div_two_pow (n k : Nat) : (n / 2 ^ k).log2 = n.log2 - k := by
  rw [Nat.log2_eq_log_two, Nat.log2_eq_log_two, Nat.log_div_base_pow]

theorem totalExponent_le {m : Nat} {e : Int} (h : m < 2 ^ 53) : totalExponent m e ≤ e + 53 := by
  have hlog : m.log2 ≤ 52 := log2_le_of_lt h
  unfold totalExponent
  omega

theorem totalExponent_mul_le (m n : Nat) (d e : Int) :
    totalExponent (m * n) (d + e) ≤ totalExponent m d + totalExponent n e := by
  have hlog := log2_mul_le m n
  unfold totalExponent
  omega

/-! ## Stored numbers -/

/-- A number with a given sign, of whose mantissa and exponent something holds; zero has no bit in its mantissa, and the
    smallest exponent. -/
inductive HasMagnitude (s : Sign) (P : Nat → Int → Prop) : UnpackedFloat → Prop where
  | zero : P 0 (-1074) → HasMagnitude s P (.zero s)
  | finite {m : Nat} {e : Int} {h : 0 < m} : P m e → HasMagnitude s P (.finite s m e h)

theorem HasMagnitude.imp {s : Sign} {P Q : Nat → Int → Prop} {u : UnpackedFloat} (h : HasMagnitude s P u)
    (hPQ : ∀ m e, P m e → Q m e) : HasMagnitude s Q u := by
  cases h with
  | zero hP => exact .zero (hPQ _ _ hP)
  | finite hP => exact .finite (hPQ _ _ hP)

theorem HasMagnitude.and {s : Sign} {P Q : Nat → Int → Prop} {u : UnpackedFloat} (hP : HasMagnitude s P u)
    (hQ : HasMagnitude s Q u) : HasMagnitude s (fun m e => P m e ∧ Q m e) u := by
  cases hP with
  | zero hzero =>
      cases hQ with
      | zero hzero' => exact .zero ⟨hzero, hzero'⟩
  | finite hfinite =>
      cases hQ with
      | finite hfinite' => exact .finite ⟨hfinite, hfinite'⟩

theorem HasMagnitude.isFinite {s : Sign} {P : Nat → Int → Prop} {u : UnpackedFloat} (h : HasMagnitude s P u) :
    u.isFinite = true := by
  cases h with
  | zero _ => rfl
  | finite _ => rfl

/-- What is stored, unless its exponent says otherwise, is a number with a mantissa of at most 53 bits. -/
theorem hasMagnitude_unpack {b : BitVec Format.binary64.numBits} (hexponent : unpackExponent b ≠ -1#11) :
    HasMagnitude (Sign.ofBitVec (unpackSign b))
      (fun m e => m < 2 ^ 53 ∧ e ≤ max (((unpackExponent b).toNat : Int) - 1075) (-1074) ∧
        (unpackExponent b ≠ 0#11 → 0 < m ∧ e = (unpackExponent b).toNat - 1075))
      (unpack .binary64 b) := by
  have hshort : (unpackMantissa b).toNat < 2 ^ 52 := (unpackMantissa b).isLt
  unfold UnpackedFloat.unpack
  simp only [if_neg hexponent]
  split
  · rename_i hzero
    have hlow : (-1074 : Int) ≤ max (((unpackExponent b).toNat : Int) - 1075) (-1074) := le_max_right _ _
    split
    · exact .zero ⟨by decide, hlow, fun hne => absurd hzero hne⟩
    · refine .finite ⟨by omega, ?_, fun hne => absurd hzero hne⟩
      rw [hzero]
      decide
  · have hpos : 0 < (1#1 ++ unpackMantissa b).toNat := by
      rw [BitVec.toNat_append]
      exact Nat.lt_of_lt_of_le (by decide : 0 < (1#1).toNat <<< 52) Nat.left_le_or
    refine .finite ⟨(1#1 ++ unpackMantissa b).isLt, ?_, fun _ => ⟨hpos, rfl⟩⟩
    show ((unpackExponent b).toNat : Int) - 1075 ≤ _
    omega

/-- A double, as it is stored. -/
def stored (x : Float) : BitVec Format.binary64.numBits :=
  x.toModel.toBits.toBitVec

/-- A finite double has its exponent in the range. -/
theorem exists_hasMagnitude {x : Float} (h : x.isFinite = true) :
    ∃ s, HasMagnitude s (fun m e => m < 2 ^ 53 ∧ e ≤ 971) x.toModel.unpack := by
  change (unpack .binary64 (stored x)).isFinite = true at h
  have hexponent : unpackExponent (stored x) ≠ -1#11 := by
    intro hall
    unfold UnpackedFloat.unpack at h
    simp only [if_pos hall] at h
    split at h <;> cases h
  have hbits : (unpackExponent (stored x)).toNat < 2 ^ 11 := BitVec.isLt _
  have hmax : (unpackExponent (stored x)).toNat ≠ 2047 := fun hmax => hexponent (BitVec.eq_of_toNat_eq hmax)
  refine ⟨_, (hasMagnitude_unpack hexponent).imp fun m e ⟨hm, he, _⟩ => ⟨hm, ?_⟩⟩
  omega

theorem hasMagnitude_packComponents (s : Sign) {exponent : BitVec Format.binary64.exponentBits}
    (hexponent : exponent ≠ -1#11) (mantissa : BitVec Format.binary64.mantissaBitsWithoutImplicit) :
    HasMagnitude s
      (fun m e => m < 2 ^ 53 ∧ e ≤ max ((exponent.toNat : Int) - 1075) (-1074) ∧
        (exponent ≠ 0#11 → 0 < m ∧ e = exponent.toNat - 1075))
      (unpack .binary64 (packComponents .binary64 s exponent mantissa)) := by
  have hstored := hasMagnitude_unpack (b := packComponents .binary64 s exponent mantissa)
    (by rwa [unpackExponent_packComponents])
  rwa [unpackSign_packComponents, Sign.ofBitVec_toBitVec, unpackExponent_packComponents] at hstored

theorem pack_finite (s : Sign) (m : Nat) (e : Int) (h : 0 < m) :
    pack .binary64 (.finite s m e h) =
      if 2 ^ 11 ≤ (e + 1075).toNat + 1 then packedInfinity .binary64 s
      else if m.log2 + 1 = 53 then
        packComponents .binary64 s (BitVec.ofNat 11 (e + 1075).toNat) (BitVec.ofNat 52 m)
      else packComponents .binary64 s 0#11 (BitVec.ofNat 52 m) := by
  have hbias : (e + Format.binary64.exponentBias + Format.binary64.mantissaBitsWithoutImplicit).toNat =
      (e + 1075).toNat := by
    congr 1
    show e + 1023 + 52 = e + 1075
    omega
  rw [UnpackedFloat.pack]
  simp only [hbias]
  rfl

/-- A number with its exponent in the range is stored as a number whose exponent is no larger, unless it is the
    smallest; the exponent stays if the leading bit is where it should be. -/
theorem hasMagnitude_pack (s : Sign) {m : Nat} {e : Int} (h : 0 < m) (he : e ≤ 971) :
    HasMagnitude s
      (fun m' e' => m' < 2 ^ 53 ∧ e' ≤ max e (-1074) ∧ (m.log2 = 52 → -1074 ≤ e → 0 < m' ∧ e' = e))
      (unpack .binary64 (pack .binary64 (.finite s m e h))) := by
  have hsmall : (BitVec.ofNat 11 (e + 1075).toNat).toNat = (e + 1075).toNat := by
    rw [BitVec.toNat_ofNat, Nat.mod_eq_of_lt (by omega)]
  rw [pack_finite, if_neg (by omega)]
  split
  · have hexponent : BitVec.ofNat 11 (e + 1075).toNat ≠ -1#11 := by
      intro hall
      have h2047 : (e + 1075).toNat = 2047 := hsmall.symm.trans (congrArg BitVec.toNat hall)
      omega
    have hnonzero (hlow : -1074 ≤ e) : BitVec.ofNat 11 (e + 1075).toNat ≠ 0#11 := by
      intro hzero
      have h0 : (e + 1075).toNat = 0 := hsmall.symm.trans (congrArg BitVec.toNat hzero)
      omega
    refine (hasMagnitude_packComponents s hexponent (BitVec.ofNat 52 m)).imp fun m' e' ⟨hm', he', hnormal⟩ => ?_
    rw [hsmall] at he' hnormal
    refine ⟨hm', by omega, fun _ hlow => ?_⟩
    obtain ⟨hpos, heq⟩ := hnormal (hnonzero hlow)
    exact ⟨hpos, by omega⟩
  · rename_i hplace
    refine (hasMagnitude_packComponents s (by decide : 0#11 ≠ -1#11) (BitVec.ofNat 52 m)).imp
      fun m' e' ⟨hm', he', _⟩ => ⟨hm', ?_, fun hlog => absurd (congrArg (· + 1) hlog) hplace⟩
    exact le_trans he' (max_le (le_trans (by decide) (le_max_right e (-1074))) (le_max_right e (-1074)))

/-- A number with its exponent beyond the range is stored as an infinity. -/
theorem unpack_pack_of_lt (s : Sign) {m : Nat} {e : Int} (h : 0 < m) (he : 971 < e) :
    unpack .binary64 (pack .binary64 (.finite s m e h)) = .infinity s := by
  rw [pack_finite, if_pos (by omega)]
  simp [packedInfinity, UnpackedFloat.unpack]

/-! ## Rounding -/

theorem mantissa_shiftRight (em : ExtendedMantissa) (k : Nat) : (em >>> k).mantissa = em.mantissa / 2 ^ k := by
  induction k with
  | zero => exact (Nat.div_one em.mantissa).symm
  | succ k ih =>
      show (em >>> k).mantissa / 2 = em.mantissa / 2 ^ (k + 1)
      rw [ih, Nat.div_div_eq_div_mul, ← Nat.pow_succ]

theorem roundedMantissa_bounds (em : ExtendedMantissa) :
    em.mantissa ≤ em.roundedMantissa ∧ em.roundedMantissa ≤ em.mantissa + 1 := by
  obtain ⟨m, roundBit, stickyBit⟩ := em
  cases roundBit with
  | false =>
      cases stickyBit with
      | false => exact ⟨Nat.le_refl m, Nat.le_succ m⟩
      | true => exact ⟨Nat.le_refl m, Nat.le_succ m⟩
  | true =>
      cases stickyBit with
      | false =>
          show m ≤ m + m % 2 ∧ m + m % 2 ≤ m + 1
          omega
      | true => exact ⟨Nat.le_succ m, Nat.le_refl (m + 1)⟩

theorem mantissa_ofMantissaAndAccuracy (m : Nat) (accuracy : Accuracy) :
    (ExtendedMantissa.ofMantissaAndAccuracy m accuracy).mantissa = m := by
  cases accuracy with
  | exact => rfl
  | inexact place => cases place <;> rfl

/-- A mantissa after dropping `k` bits and rounding: it is as long as what was kept, or one bit longer. -/
theorem log2_rounded (m k : Nat) (accuracy : Accuracy) :
    m.log2 - k ≤ (ExtendedMantissa.ofMantissaAndAccuracy m accuracy >>> k).roundedMantissa.log2 ∧
      (ExtendedMantissa.ofMantissaAndAccuracy m accuracy >>> k).roundedMantissa.log2 ≤ m.log2 - k + 1 := by
  have hrounded := roundedMantissa_bounds (ExtendedMantissa.ofMantissaAndAccuracy m accuracy >>> k)
  rw [mantissa_shiftRight, mantissa_ofMantissaAndAccuracy] at hrounded
  rw [← log2_div_two_pow]
  refine ⟨log2_mono hrounded.1, log2_le_of_lt ?_⟩
  have hkept : m / 2 ^ k < 2 ^ ((m / 2 ^ k).log2 + 1) := Nat.lt_log2_self
  have hdouble : 2 ^ ((m / 2 ^ k).log2 + 1 + 1) = 2 ^ ((m / 2 ^ k).log2 + 1) + 2 ^ ((m / 2 ^ k).log2 + 1) := by
    rw [Nat.pow_succ, Nat.mul_two]
  have hone : 1 ≤ 2 ^ ((m / 2 ^ k).log2 + 1) := Nat.one_le_two_pow
  omega

/-- The number with a mantissa and an exponent. -/
def ofParts (s : Sign) (m : Nat) (e : Int) : UnpackedFloat :=
  if h : m = 0 then .zero s else .finite s m e (Nat.pos_of_ne_zero h)

theorem hasMagnitude_ofParts {s : Sign} {m : Nat} {e : Int} {P : Nat → Int → Prop} (hP : P m e)
    (hzero : m = 0 → P 0 (-1074)) : HasMagnitude s P (ofParts s m e) := by
  unfold ofParts
  split
  · rename_i hm
    exact .zero (hzero hm)
  · exact .finite hP

/-- Rounding drops `k` bits, so that 53 are left, or as many as there are above the smallest exponent; if rounding up
    made the rest longer, it drops `j` more. -/
theorem exists_round (s : Sign) (m : Nat) (e : Int) (accuracy : Accuracy) :
    ∃ r k j : Nat, roundWithAccuracy .binary64 s m e accuracy = ofParts s (r / 2 ^ j) (e + k + j) ∧
      m.log2 - k ≤ r.log2 ∧ r.log2 ≤ m.log2 - k + 1 ∧
      k = (max (m.log2 + 1 + e - 53) (-1074) - e).toNat ∧
      j = (max (r.log2 + 1 + (e + k) - 53) (-1074) - (e + k)).toNat := by
  obtain ⟨hlower, hupper⟩ := log2_rounded m (max (m.log2 + 1 + e - 53) (-1074) - e).toNat accuracy
  refine ⟨_, _, _, ?_, hlower, hupper, rfl, rfl⟩
  have htarget (m : Nat) (e : Int) :
      Format.binary64.targetExponent (totalExponent m e) = max (m.log2 + 1 + e - 53) (-1074) := rfl
  unfold roundWithAccuracy ofParts
  simp only [shiftToTargetExponent, shiftToExponent, htarget, mantissa_shiftRight, mantissa_ofMantissaAndAccuracy]

theorem hasMagnitude_round (s : Sign) {m : Nat} {e bound : Int} (accuracy : Accuracy)
    (htotal : totalExponent m e ≤ bound + 52) (he : e ≤ bound) (hlow : -1074 ≤ bound) :
    HasMagnitude s (fun _ e' => e' ≤ bound) (roundWithAccuracy .binary64 s m e accuracy) := by
  obtain ⟨r, k, j, hround, -, hupper, hk, hj⟩ := exists_round s m e accuracy
  rw [hround]
  unfold totalExponent at htotal
  exact hasMagnitude_ofParts (by omega) fun _ => hlow

/-- A mantissa that is long enough is rounded to one of full length. -/
theorem hasMagnitude_round_normal (s : Sign) {m : Nat} {e : Int} (accuracy : Accuracy) (hm : 52 ≤ m.log2)
    (he : -1074 ≤ e) :
    HasMagnitude s (fun m' e' => m'.log2 = 52 ∧ e ≤ e') (roundWithAccuracy .binary64 s m e accuracy) := by
  obtain ⟨r, k, j, hround, hlower, hupper, hk, hj⟩ := exists_round s m e accuracy
  have hfull : (r / 2 ^ j).log2 = 52 := by
    rw [log2_div_two_pow]
    omega
  rw [hround]
  refine hasMagnitude_ofParts ⟨hfull, by omega⟩ fun hnone => ?_
  rw [hnone, Nat.log2_zero] at hfull
  exact absurd hfull (by decide)

/-! ## Arithmetic on doubles that are not negative -/

/-- A double that is not negative, with its leading bit at most at a place. -/
def Within (bound : Int) (x : Float) : Prop :=
  HasMagnitude .positive (fun m e => totalExponent m e ≤ bound) x.toModel.unpack

theorem Within.isFinite {bound : Int} {x : Float} (h : Within bound x) : x.isFinite = true :=
  HasMagnitude.isFinite h

/-- Storing keeps what is in the range; as to the place of the leading bit, only the exponent is looked at here. -/
theorem HasMagnitude.stored {s : Sign} {bound : Int} {u : UnpackedFloat} (h : HasMagnitude s (fun _ e => e ≤ bound) u)
    (hlow : -1074 ≤ bound) (hhigh : bound ≤ 971) :
    HasMagnitude s (fun m e => totalExponent m e ≤ bound + 53) (unpack .binary64 (pack .binary64 u)) := by
  cases h with
  | zero _ =>
      have hzero : unpack .binary64 (pack .binary64 (.zero s)) = .zero s := by cases s <;> rfl
      rw [hzero]
      exact .zero (by rw [totalExponent, Nat.log2_zero]; omega)
  | finite he =>
      refine (hasMagnitude_pack s _ (le_trans he hhigh)).imp fun m' e' ⟨hm', he', _⟩ => ?_
      have htotal : totalExponent m' e' ≤ e' + 53 := totalExponent_le hm'
      omega

theorem HasMagnitude.mul {a b : Int} {u v : UnpackedFloat}
    (hu : HasMagnitude .positive (fun m e => totalExponent m e ≤ a) u)
    (hv : HasMagnitude .positive (fun m e => totalExponent m e ≤ b) v) (hlow : -1074 ≤ a + b) :
    HasMagnitude .positive (fun _ e => e ≤ a + b) (UnpackedFloat.mul .binary64 u v) := by
  cases hu with
  | zero _ =>
      cases hv with
      | zero _ => exact .zero hlow
      | finite _ => exact .zero hlow
  | @finite m d _ hm =>
      cases hv with
      | zero _ => exact .zero hlow
      | @finite n e _ hn =>
          have htotal := totalExponent_mul_le m n d e
          have hexponent : d + e ≤ a + b := by
            unfold totalExponent at hm hn
            omega
          exact hasMagnitude_round .positive .exact (by omega) hexponent hlow

theorem Within.mul {a b : Int} {x y : Float} (hx : Within a x) (hy : Within b y) (hlow : -1074 ≤ a + b)
    (hhigh : a + b ≤ 971) : Within (a + b + 53) (x * y) :=
  HasMagnitude.stored (HasMagnitude.mul hx hy hlow) hlow hhigh

/-- A product that is not infinite is finite. -/
theorem Within.isFinite_mul {a b : Int} {x y : Float} (hx : Within a x) (hy : Within b y) (hlow : -1074 ≤ a + b)
    (h : (x * y == infinity) = false) : (x * y).isFinite = true := by
  have hproduct := HasMagnitude.mul hx hy hlow
  have hstored : (x * y).toModel.unpack =
      unpack .binary64 (pack .binary64 (UnpackedFloat.mul .binary64 x.toModel.unpack y.toModel.unpack)) := rfl
  have hne : (x * y).toModel.unpack ≠ .infinity .positive := by
    intro hinf
    have hequal : (x * y == infinity) = UnpackedFloat.beq (x * y).toModel.unpack infinity.toModel.unpack := rfl
    rw [hequal, hinf] at h
    exact absurd h (by decide)
  show (x * y).toModel.unpack.isFinite = true
  rw [hstored] at hne ⊢
  generalize UnpackedFloat.mul .binary64 x.toModel.unpack y.toModel.unpack = product at hproduct hne ⊢
  cases hproduct with
  | zero _ => rfl
  | @finite m e hpos _ =>
      by_cases he : e ≤ 971
      · exact (hasMagnitude_pack .positive hpos he).isFinite
      · exact absurd (unpack_pack_of_lt .positive hpos (by omega)) hne

/-- Whether a double is a number of at least one half, so that dividing by it makes little larger. Only the exponent is
    looked at. -/
def isDivisor (p : Float) : Bool :=
  match p.toModel.unpack with
  | .finite .positive _ e _ => -53 ≤ e
  | _ => false

theorem isDivisor_of_hasMagnitude {p : Float}
    (h : HasMagnitude .positive (fun m e => 0 < m ∧ -53 ≤ e) p.toModel.unpack) : isDivisor p = true := by
  unfold isDivisor
  generalize p.toModel.unpack = u at h ⊢
  cases h with
  | zero hpos => exact absurd hpos.1 (by decide)
  | finite hme => exact decide_eq_true hme.2

theorem within_of_isDivisor {p : Float} (h : isDivisor p = true) : Within 1024 p := by
  unfold isDivisor at h
  split at h
  · rename_i m e hpos hp
    have hfinite : p.isFinite = true := by
      show p.toModel.unpack.isFinite = true
      rw [hp]
      rfl
    obtain ⟨s, hmagnitude⟩ := exists_hasMagnitude hfinite
    unfold Within
    rw [hp] at hmagnitude ⊢
    cases hmagnitude with
    | finite hme =>
        have htotal : totalExponent m e ≤ e + 53 := totalExponent_le hme.1
        exact .finite (by omega)
  · cases h

/-- The quotient of two mantissas, before it is rounded. -/
theorem totalExponent_divCore_le {m n : Nat} {d e : Int} {bound : Int} (hm : totalExponent m d ≤ bound) (he : -53 ≤ e) :
    totalExponent (divCore .binary64 m d n e).1 (divCore .binary64 m d n e).2.1 ≤ bound + 53 := by
  have hshift (k : Nat) : (m <<< k / n).log2 ≤ m.log2 + k :=
    le_trans (log2_mono (Nat.div_le_self _ _)) (log2_shiftLeft_le m k)
  unfold divCore
  simp only
  have hquotient := hshift (d - e - min (d - e)
    (Format.binary64.targetExponent (totalExponent m d - totalExponent n e))).toNat
  unfold totalExponent at *
  omega

theorem HasMagnitude.div {bound : Int} {u : UnpackedFloat} (hu : HasMagnitude .positive (totalExponent · · ≤ bound) u)
    {n : Nat} {e : Int} (hn : 0 < n) (he : -53 ≤ e) (hlow : -1074 ≤ bound) :
    HasMagnitude .positive (fun _ e => e ≤ bound + 53)
      (UnpackedFloat.div .binary64 u (.finite .positive n e hn)) := by
  cases hu with
  | zero _ => exact .zero (by omega)
  | @finite m d _ htotal =>
      have hquotient := totalExponent_divCore_le (n := n) htotal he
      have hexponent : (divCore .binary64 m d n e).2.1 ≤ bound + 53 := by
        unfold totalExponent at hquotient
        omega
      exact hasMagnitude_round .positive _ (le_trans hquotient (by omega)) hexponent (by omega)

/-- Dividing by a number of at least one half stays in the range. -/
theorem Within.div {bound : Int} {x p : Float} (hx : Within bound x) (hp : isDivisor p = true) (hlow : -1074 ≤ bound)
    (hhigh : bound ≤ 918) : Within (bound + 106) (x / p) := by
  have hquotient : HasMagnitude .positive (fun _ e => e ≤ bound + 53)
      (UnpackedFloat.div .binary64 x.toModel.unpack p.toModel.unpack) := by
    unfold isDivisor at hp
    split at hp
    · rename_i n e hn hdivisor
      rw [hdivisor]
      exact HasMagnitude.div hx hn (of_decide_eq_true hp) hlow
    · exact absurd hp (by decide)
  have hstored := hquotient.stored (by omega) (by omega)
  rwa [show bound + 53 + 53 = bound + 106 by omega] at hstored

/-! ## Powers of ten -/

/-- A number that is written without a negative exponent is only rounded. -/
theorem ofScientific_natCast {n k : Nat} (hn : 0 < n) (hk : k ≤ 2048) :
    Float.Model.UnpackedFloat.ofScientific .binary64 n k =
      roundWithAccuracy .binary64 .positive (n <<< 53 * 10 ^ k) (-53 + 0) .exact := by
  have hrange : (2 : Int) ^ Format.binary64.exponentBits = 2048 := rfl
  unfold Float.Model.UnpackedFloat.ofScientific
  rw [dif_neg (by omega), if_neg (by omega), if_neg (by omega), if_pos (by omega)]
  rfl

/-- Larger powers of ten are rounded to full length. The largest is not among them, as the bound on its leading bit
    would let it round up to infinity. -/
theorem hasMagnitude_ofScientific_one {k : Nat} (h : k ≤ 307) :
    HasMagnitude .positive (fun m e => (m.log2 = 52 ∧ -53 ≤ e) ∧ e ≤ 971)
      (Float.Model.UnpackedFloat.ofScientific .binary64 1 k) := by
  have hlog : (10 ^ k).log2 ≤ 1019 := le_trans (log2_mono (Nat.pow_le_pow_right (by decide) h)) (by decide +kernel)
  have hone : (1 <<< 53).log2 = 53 := by decide +kernel
  have hupper := log2_mul_le (1 <<< 53) (10 ^ k)
  have hlower : (1 <<< 53).log2 ≤ (1 <<< 53 * 10 ^ k).log2 :=
    log2_mono (Nat.le_mul_of_pos_right _ (Nat.pow_pos (by decide)))
  rw [ofScientific_natCast (by decide) (by omega)]
  generalize 1 <<< 53 * 10 ^ k = m at hupper hlower ⊢
  have htotal : totalExponent m (-53 + 0) ≤ 971 + 52 := by
    unfold totalExponent
    omega
  exact (hasMagnitude_round_normal .positive .exact (by omega) (by decide)).and
    (hasMagnitude_round .positive .exact htotal (by decide) (by decide))

theorem isDivisor_of_large {k : Nat} (hlow : 22 < k) (hhigh : k ≤ 307) : isDivisor (powerOfTen k) = true := by
  have hpower : powerOfTen k = Float.ofModel (Float.Model.ofScientific 1 k) := by
    show Float.ofScientific 1 false k = _
    unfold Float.ofScientific
    rw [dif_neg (by omega)]
    rfl
  apply isDivisor_of_hasMagnitude
  rw [hpower]
  show HasMagnitude _ _ (unpack .binary64 (pack .binary64 (Float.Model.UnpackedFloat.ofScientific .binary64 1 k)))
  have hrounded := hasMagnitude_ofScientific_one hhigh
  generalize Float.Model.UnpackedFloat.ofScientific .binary64 1 k = u at hrounded ⊢
  cases hrounded with
  | zero hnone => exact absurd hnone.1.1 (by decide)
  | @finite m e hpos hme =>
      obtain ⟨⟨hfull, hlow⟩, hhigh⟩ := hme
      refine (hasMagnitude_pack .positive hpos hhigh).imp fun m' e' ⟨_, _, hkept⟩ => ?_
      obtain ⟨hpos', rfl⟩ := hkept hfull (by omega)
      exact ⟨hpos', hlow⟩

theorem isDivisor_powerOfTen {k : Nat} (h : k ≤ 308) : isDivisor (powerOfTen k) = true := by
  have hsmall : ∀ k ≤ 22, isDivisor (powerOfTen k) = true := by decide +kernel
  by_cases hk : k ≤ 22
  · exact hsmall k hk
  · by_cases hlargest : k = 308
    · subst hlargest
      decide +kernel
    · exact isDivisor_of_large (by omega) (by omega)

/-! ## Significands -/

/-- A whole number of 64 bits, rounded. -/
theorem hasMagnitude_normalize {n : Nat} (h : n < 2 ^ 64) :
    HasMagnitude .positive (fun _ e => e ≤ 64) (UnpackedFloat.normalize .binary64 n 0 .positive) := by
  have hlog : n.log2 ≤ 63 := log2_le_of_lt h
  have htotal (k : Nat) : totalExponent (n <<< k) (0 - k) ≤ 64 + 52 := by
    have hleading := log2_shiftLeft_le n k
    unfold totalExponent
    omega
  unfold UnpackedFloat.normalize
  split
  · rename_i hless
    rw [Int.compare_eq_lt] at hless
    omega
  · exact .zero (by decide)
  · exact hasMagnitude_round .positive .exact (htotal _) (by omega) (by decide)

theorem within_toFloat (n : UInt64) : Within 117 n.toFloat :=
  (hasMagnitude_normalize n.toNat_lt).stored (by decide) (by decide)

theorem within_one : Within 1 (Float.ofBits 0x3FF0000000000000) := by
  have hone : (Float.ofBits 0x3FF0000000000000).toModel.unpack = .finite .positive (2 ^ 52) (-52) (by decide) := rfl
  unfold Within
  rw [hone]
  exact .finite (by decide +kernel)

theorem hasMagnitude_ofScientific {n : Nat} (hpos : 0 < n) (h : n < 2 ^ 64) :
    HasMagnitude .positive (fun _ e => e ≤ 64) (Float.Model.UnpackedFloat.ofScientific .binary64 n 0) := by
  have hlog : n.log2 ≤ 63 := log2_le_of_lt h
  have hleading := log2_shiftLeft_le n 53
  have hscaled := ofScientific_natCast hpos (Nat.zero_le 2048)
  rw [Nat.pow_zero, Nat.mul_one] at hscaled
  rw [show (0 : Int) = (0 : Nat) from rfl, hscaled]
  refine hasMagnitude_round .positive .exact ?_ (by decide) (by decide)
  unfold totalExponent
  omega

/-- A significand of 64 bits, as a double. -/
theorem within_ofNat {n : Nat} (h : n ≤ maxSignificand) : Within 171 (Float.ofNat n) := by
  show Within 171 (Float.ofScientific n false 0)
  unfold Float.ofScientific
  split
  · exact (within_toFloat n.toUInt64).mul within_one (by decide) (by decide)
  · have hstored : Within 117 (Float.ofModel (Float.Model.ofScientific n 0)) :=
      (hasMagnitude_ofScientific (by omega) (Nat.lt_succ_of_le h)).stored (by decide) (by decide)
    exact HasMagnitude.imp hstored fun m e hme => le_trans hme (by decide)

theorem absorbWhole_le {significand : Nat} (h : significand ≤ maxSignificand) (exponent : Int) (ds : List Nat) :
    (absorbWhole significand exponent ds).1 ≤ maxSignificand := by
  induction ds generalizing significand with
  | nil => exact h
  | cons d ds ih =>
      unfold absorbWhole
      split
      · rename_i hfits
        exact ih hfits
      · exact h

theorem absorbFraction_le {significand : Nat} (h : significand ≤ maxSignificand) (exponent : Int) (ds : List Nat) :
    (absorbFraction significand exponent ds).1 ≤ maxSignificand := by
  induction ds generalizing significand exponent with
  | nil => exact h
  | cons d ds ih =>
      unfold absorbFraction
      split
      · rename_i hfits
        exact ih hfits (exponent - 1)
      · exact h

/-! ## The scaled reading -/

theorem isFinite_neg {x : Float} (h : x.isFinite = true) : (-x).isFinite = true := by
  obtain ⟨s, hx⟩ := exists_hasMagnitude h
  show (unpack .binary64 (pack .binary64 x.toModel.unpack.neg)).isFinite = true
  generalize x.toModel.unpack = u at hx ⊢
  cases hx with
  | zero _ => cases s <;> rfl
  | finite hme => exact (hasMagnitude_pack (-s) _ hme.2).isFinite

/-- A finite number equals itself. -/
theorem beq_self_of_isFinite {x : Float} (h : x.isFinite = true) : (x == x) = true := by
  rw [Float.beq_self_iff]
  rintro rfl
  exact absurd h (by decide)

theorem isFinite_signed {x : Float} (h : x.isFinite = true) (negative : Bool) :
    (signed negative x).isFinite = true := by
  cases negative with
  | false => exact h
  | true => exact isFinite_neg h

theorem isFinite_of_scale? {significand : Nat} (h : significand ≤ maxSignificand) {exponent : Int} {x : Float}
    (hx : scale? significand exponent = some x) : x.isFinite = true := by
  have hn : Within 171 (Float.ofNat significand) := within_ofNat h
  unfold scale? at hx
  simp only at hx
  split at hx
  · obtain rfl : 0.0 = x := Option.some.inj hx
    decide +kernel
  · rename_i hkept
    have hlow : -616 ≤ exponent := by
      by_contra hless
      simp [show exponent < -616 by omega] at hkept
    split at hx
    · obtain rfl := Option.some.inj hx
      have honce := hn.div (isDivisor_powerOfTen (Nat.le_refl 308)) (by decide) (by decide)
      exact (honce.div (isDivisor_powerOfTen (by omega)) (by decide) (by decide)).isFinite
    · split at hx
      · obtain rfl := Option.some.inj hx
        exact (hn.div (isDivisor_powerOfTen (by omega)) (by decide) (by decide)).isFinite
      · split at hx
        · cases hx
        · split at hx
          · cases hx
          · rename_i hfinite
            obtain rfl := Option.some.inj hx
            have hpower := within_of_isDivisor (isDivisor_powerOfTen (k := exponent.toNat) (by omega))
            exact hn.isFinite_mul hpower (by decide) (by simpa using hfinite)

/-- **The scaled reading of a numeral is finite.** -/
theorem Numeral.isFinite_of_scaled? {n : Numeral} {x : Float} (h : n.scaled? = some x) : x.isFinite = true := by
  unfold scaled? at h
  obtain ⟨magnitude, hmagnitude, rfl⟩ := Option.map_eq_some_iff.mp h
  have hwhole := absorbWhole_le (Nat.zero_le maxSignificand) n.exponent n.whole
  exact isFinite_signed (isFinite_of_scale? (absorbFraction_le hwhole _ n.fraction) hmagnitude) n.negative

end AccessPolicy.Decimal
