import Mathlib.Algebra.Order.Field.Power
import Mathlib.Algebra.Order.Field.Rat
import Mathlib.Order.WithBot
import Mathlib.Tactic.NormNum
import Mathlib.Tactic.Ring
import WebAudit.Number.Binary

/-!
Where binary values stand on the number line. Values are compared as multiples
of a common power of two; the result is that of comparing the numbers they
stand for, with the infinities at the two ends. A not-a-number is below every
bound and gives way to every other value, so it is placed at the lower end. On
that line the greater of two values is the maximum.
-/

namespace WebAudit.Number.Binary

/-- The number that a finite value stands for. -/
def rational (negative : Bool) (mantissa : Nat) (exponent : Int) : ℚ :=
  (if negative then -(mantissa : ℚ) else mantissa) * 2 ^ exponent

/-- The place of a value on the number line. -/
def value : Binary → WithBot (WithTop ℚ)
  | .finite negative m e => ((rational negative m e : WithTop ℚ) : WithBot (WithTop ℚ))
  | .infinite true => ⊥
  | .infinite false => ((⊤ : WithTop ℚ) : WithBot (WithTop ℚ))
  | .nan => ⊥

theorem scaled_mul (negative : Bool) (m : Nat) {exponent e : Int} (hle : e ≤ exponent) :
    (scaled negative m exponent e : ℚ) * 2 ^ e = rational negative m exponent := by
  have hpower : (2 : ℚ) ^ exponent = 2 ^ (exponent - e).toNat * 2 ^ e := by
    rw [← zpow_natCast, Int.toNat_of_nonneg (by omega), ← zpow_add₀ two_ne_zero,
      Int.sub_add_cancel]
  cases negative with
  | false =>
      simp only [scaled, rational, hpower, Bool.false_eq_true, if_false, Nat.pow_eq]
      push_cast
      ring
  | true =>
      simp only [scaled, rational, hpower, if_true, Nat.pow_eq]
      push_cast
      ring

private theorem compare_map {α β : Type} [LinearOrder α] [LinearOrder β] {f : α → β}
    (hmono : StrictMono f) (a b : α) : compare (f a) (f b) = compare a b := by
  rw [← cmp_eq_compare, ← cmp_eq_compare, hmono.cmp_map_eq]

/-- Two values that are numbers compare like their places. -/
theorem order_eq_compare {x y : Binary} (hx : x ≠ .nan) (hy : y ≠ .nan) :
    order x y = some (compare x.value y.value) := by
  cases x with
  | nan => exact absurd rfl hx
  | infinite a =>
      cases y with
      | nan => exact absurd rfl hy
      | infinite b => cases a <;> cases b <;> rfl
      | finite b n g => cases a <;> rfl
  | finite a m e =>
      cases y with
      | nan => exact absurd rfl hy
      | infinite b => cases b <;> rfl
      | finite b n g =>
          have hpositive : (0 : ℚ) < 2 ^ min e g := zpow_pos two_pos _
          have hscale : StrictMono fun i : Int => (i : ℚ) * 2 ^ min e g := by
            intro i j hij
            exact mul_lt_mul_of_pos_right (Int.cast_lt.mpr hij) hpositive
          have hline := (WithBot.coe_strictMono.comp WithTop.coe_strictMono).comp hscale
          have hcompare := compare_map hline (scaled a m e (min e g)) (scaled b n g (min e g))
          simp only [Function.comp_apply, scaled_mul a m (min_le_left e g),
            scaled_mul b n (min_le_right e g)] at hcompare
          simp only [order, value, hcompare]

theorem lt_iff_value {x y : Binary} (hx : x ≠ .nan) (hy : y ≠ .nan) :
    x.lt y ↔ x.value < y.value := by
  rw [lt, order_eq_compare hx hy, beq_iff_eq, Option.some.injEq, compare_lt_iff_lt]

theorem le_iff_value {x y : Binary} (hx : x ≠ .nan) (hy : y ≠ .nan) :
    x.le y ↔ x.value ≤ y.value := by
  rw [le, order_eq_compare hx hy, Bool.or_eq_true, beq_iff_eq, beq_iff_eq, Option.some.injEq,
    Option.some.injEq, compare_lt_iff_lt, compare_eq_iff_eq, le_iff_lt_or_eq]

section Bounds

variable {c : Binary} (hfinite : c.isFinite) (x : Binary)

include hfinite

theorem ne_nan_of_isFinite : c ≠ .nan := by
  rintro rfl
  cases hfinite

theorem value_nan_lt : value .nan < c.value := by
  cases c with
  | finite negative m e => exact WithBot.bot_lt_coe _
  | infinite _ => cases hfinite
  | nan => cases hfinite

/-- A finite bound is reached by the values that do not stand below it. -/
theorem le_iff_of_isFinite : c.le x ↔ c.value ≤ x.value := by
  by_cases hx : x = .nan
  · subst hx
    have hfalse : c.le .nan = false := by cases c <;> rfl
    have hbelow : ¬c.value ≤ value .nan := not_le.mpr (value_nan_lt hfinite)
    simp [hfalse, hbelow]
  · exact le_iff_value (ne_nan_of_isFinite hfinite) hx

theorem lt_iff_of_isFinite : c.lt x ↔ c.value < x.value := by
  by_cases hx : x = .nan
  · subst hx
    have hfalse : c.lt .nan = false := by cases c <;> rfl
    have hbelow : ¬c.value < value .nan := not_lt.mpr (value_nan_lt hfinite).le
    simp [hfalse, hbelow]
  · exact lt_iff_value (ne_nan_of_isFinite hfinite) hx

end Bounds

theorem value_greater (x y : Binary) : (greater x y).value = max x.value y.value := by
  by_cases hx : x = .nan
  · subst hx
    simp [greater, value]
  by_cases hy : y = .nan
  · subst hy
    cases x <;> simp_all [greater, value]
  have hgreater : greater x y = if lt x y then y else x := by
    cases x <;> cases y <;> simp_all [greater]
  rw [hgreater]
  split
  · rename_i hlt
    exact (max_eq_right ((lt_iff_value hx hy).mp hlt).le).symm
  · rename_i hlt
    exact (max_eq_left (not_lt.mp fun h => hlt ((lt_iff_value hx hy).mpr h))).symm

end WebAudit.Number.Binary
