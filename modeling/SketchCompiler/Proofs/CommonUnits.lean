import Mathlib
import SketchCompiler.PhysicalUnit

namespace SketchCompiler

/-- The unit that programs compute in. -/
def Dimension.commonUnit : Dimension → PhysicalUnit
  | time => .milliseconds
  | frequency => .hertz
  | angle => .degrees
  | distance => .millimeters
  | speed => .rpm
  | voltage => .millivolts
  | current => .milliamperes
  | resistance => .ohms
  | power => .milliwatts

/-- The dimensions whose units are rational multiples of each other, and are converted. -/
def Dimension.scaled : List Dimension := [time, distance, voltage, current, resistance, power]

namespace PhysicalUnit

/-- The size in seconds, metres, volts, amperes, ohms or watts; of other units, none. -/
def size : PhysicalUnit → ℚ
  | microseconds => 1 / 1000000
  | milliseconds | millimeters | millivolts | milliamperes | milliwatts => 1 / 1000
  | centimeters => 1 / 100
  | seconds | meters | volts | amperes | ohms | watts => 1
  | minutes => 60
  | hours => 60 * 60
  | kilometers | kiloohms => 1000
  | hertz | kilohertz | megahertz | degrees | radians | rpm => 0

/-- How many of the common unit make one. -/
def factor (u : PhysicalUnit) : ℚ := u.size / u.dimension.commonUnit.size

end PhysicalUnit

/-- The number that a conversion multiplies by, if there is one. -/
def Conversion.ratio? : Conversion → Option ℚ
  | keep | radiansToDegrees => none
  | scale k => some k
  | divide k => some (1 / k)

lemma PhysicalUnit.ratio?_conversion {u : PhysicalUnit} (hu : u.dimension ∈ Dimension.scaled) :
    u.conversion.ratio? = some u.factor := by
  cases u <;> simp only [dimension, Dimension.scaled, List.mem_cons, List.not_mem_nil, reduceCtorEq, or_false] at hu <;>
    norm_num [conversion, Conversion.ratio?, factor, size, dimension, Dimension.commonUnit]

namespace Number

variable {x y : Int} {u v : PhysicalUnit}

lemma saturate_of_nonneg (hx : 0 ≤ x) : saturate x = min x maxInt := by
  unfold saturate minInt maxInt
  omega

lemma inCommonUnit_int (hx : x ∈ Set.Icc 0 maxInt) (hu : u.dimension ∈ Dimension.scaled) :
    (int x).inCommonUnit u = int (min ⌊x * u.factor⌋ maxInt) := by
  have hratio := PhysicalUnit.ratio?_conversion hu
  unfold inCommonUnit
  cases hk : u.conversion with
  | keep | radiansToDegrees => simp [hk, Conversion.ratio?] at hratio
  | scale k =>
    have hf : (k : ℚ) = u.factor := by simpa [hk, Conversion.ratio?] using hratio
    have hfloor : ⌊(x : ℚ) * k⌋ = x * k := by exact_mod_cast Int.floor_intCast (R := ℚ) (x * k)
    rw [← hf, hfloor, ← saturate_of_nonneg (Int.mul_nonneg hx.1 (Int.natCast_nonneg k))]
  | divide k =>
    have hf : 1 / (k : ℚ) = u.factor := by simpa [hk, Conversion.ratio?] using hratio
    have hle : x / k ≤ maxInt := (Int.ediv_le_self _ hx.1).trans hx.2
    rw [← hf, mul_one_div, Rat.floor_intCast_div_natCast, min_eq_left hle, ← Int.tdiv_eq_ediv_of_nonneg hx.1]

/-- What is written in two units of one dimension compares as it does by its exact value, but for what the floor and the
greatest integer make equal. -/
theorem inCommonUnit_floor :
    (∀ x u, x ∈ Set.Icc 0 maxInt → u.dimension ∈ Dimension.scaled →
      (int x).inCommonUnit u = int (min ⌊x * u.factor⌋ maxInt)) ∧
    ∀ x y u v, x ∈ Set.Icc 0 maxInt → y ∈ Set.Icc 0 maxInt → u.dimension ∈ Dimension.scaled →
      u.dimension = v.dimension → (x : ℚ) * u.factor ≤ y * v.factor →
      ∃ a b, (int x).inCommonUnit u = int a ∧ (int y).inCommonUnit v = int b ∧ a ≤ b := by
  refine ⟨fun x u => inCommonUnit_int, fun x y u v hx hy hu huv h => ?_⟩
  exact ⟨_, _, inCommonUnit_int hx hu, inCommonUnit_int hy (huv ▸ hu), min_le_min_right _ (Int.floor_mono h)⟩

/-- Whole milliseconds of `1999us`, and as many as fit of more hours than fit. -/
theorem inCommonUnit_floor_times :
    ((1999 : ℤ) : ℚ) * PhysicalUnit.factor .microseconds ≤ (2562047788016 : ℤ) * PhysicalUnit.factor .hours ∧
    (int 1999).inCommonUnit .microseconds = int (min ⌊((1999 : ℤ) : ℚ) * PhysicalUnit.factor .microseconds⌋ maxInt) ∧
    ∃ a b, (int 1999).inCommonUnit .microseconds = int a ∧ (int 2562047788016).inCommonUnit .hours = int b ∧ a ≤ b := by
  have hx : 1999 ∈ Set.Icc 0 maxInt := ⟨by decide, by decide⟩
  have hle : ((1999 : ℤ) : ℚ) * PhysicalUnit.factor .microseconds ≤
      (2562047788016 : ℤ) * PhysicalUnit.factor .hours := by decide +kernel
  exact ⟨hle, inCommonUnit_floor.1 _ _ hx (by decide),
    inCommonUnit_floor.2 _ _ _ _ hx ⟨by decide, by decide⟩ (by decide) rfl hle⟩

end Number

end SketchCompiler
