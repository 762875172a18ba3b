import Mathlib.Data.Rat.Floor
import Mathlib.Tactic.NormNum
import Shrimp.Lib.RelativeError
import Shrimp.Transforms

/-!
# The size of the result

`calculate_result_size` and `check_image_size` of `transforms.cpp`. A `float` is a rational number
here, and each operation on floats has an error of its own that depends on its operands, anything up
to `2 ^ -24` of the exact value: what is proved holds for every rounding within that bound.
`result_geometry` says which size comes out, and that neither the second side nor the count of
pixels leaves 64 bits.
-/

namespace Shrimp

open RelativeError

/-- `Magick::Geometry`, the sides in pixels. -/
structure Geometry where
  width : UInt64
  height : UInt64
deriving DecidableEq, Repr

/-- The number of pixels. -/
def Geometry.area (size : Geometry) : Nat := size.height.toNat * size.width.toNat

/-- The sizes of images: both sides are from 1 to `2 ^ 32 - 1`. -/
structure Geometry.Valid (size : Geometry) : Prop where
  one_le_width : 1 ≤ size.width.toNat
  width_lt : size.width.toNat < 2 ^ 32
  one_le_height : 1 ≤ size.height.toNat
  height_lt : size.height.toNat < 2 ^ 32

/-- The relative error of an operation on `float`s. -/
abbrev FloatError := Error (1 / 2 ^ 24 : ℚ)

/-- The errors of the `float` operations of `scale_second_component`, as functions of the operands:
the conversions of `dest_len` and `source_len`, their quotient, the conversion of
`second_component_source_len`, and the product. Rounding to an integer and the conversion of the
integer are exact. -/
structure FloatErrors where
  destLen : UInt64 → FloatError
  sourceLen : UInt64 → FloatError
  quotient : ℚ → ℚ → FloatError
  secondComponent : UInt64 → FloatError
  product : ℚ → ℚ → FloatError

/-- No error. -/
def FloatError.zero : FloatError := ⟨0, by norm_num⟩

/-- All operations are exact. -/
def FloatErrors.exact : FloatErrors :=
  ⟨fun _ => .zero, fun _ => .zero, fun _ _ => .zero, fun _ => .zero, fun _ _ => .zero⟩

namespace Transform

/-- `check_image_size`. The product is one of 64 bits. -/
def checkImageSize (imgSize : Geometry) (totalPixelsLimit : UInt64) : Except StdException Unit :=
  let resultPixelsCount := imgSize.height * imgSize.width
  if resultPixelsCount > totalPixelsLimit then
    .error ⟨"exceeding total_pixels_limit: (" ++ toString imgSize.height ++ "," ++
      toString imgSize.width ++ ") ~ " ++ toString resultPixelsCount ++ " pixels (limit: " ++
      toString totalPixelsLimit ++ ")"⟩
  else
    .ok ()

/-- `at_least_uno`. -/
def atLeastUno (value : ℚ) : UInt64 :=
  let n := UInt64.ofNat ⌊value⌋.toNat
  if 1 < n then n else 1

/-- `scale_second_component`. -/
def scaleSecondComponent (e : FloatErrors) (sourceLen destLen secondComponentSourceLen : UInt64) :
    Except StdException UInt64 :=
  if destLen = 0 then
    .error ⟨"scale_second_component error: dest len cannot be 0"⟩
  else
    let dest : ℚ := perturb (e.destLen destLen) destLen.toNat
    let source : ℚ := perturb (e.sourceLen sourceLen) sourceLen.toNat
    let scale : ℚ := perturb (e.quotient dest source) (dest / source)
    let second : ℚ := perturb (e.secondComponent secondComponentSourceLen)
      secondComponentSourceLen.toNat
    .ok (atLeastUno (roundHalfAway (perturb (e.product second scale) (second * scale))))

/-- The size with the width asked for, in `calculate_result_size`. -/
def sizeOfWidth (e : FloatErrors) (originalSize : Geometry) (params : ResizeParams) :
    Except StdException Geometry := do
  let width := (← params.getValue).toUInt64
  let height ← scaleSecondComponent e originalSize.width (← params.getValue).toUInt64
    originalSize.height
  return { width, height }

/-- The size with the height asked for, in `calculate_result_size`. -/
def sizeOfHeight (e : FloatErrors) (originalSize : Geometry) (params : ResizeParams) :
    Except StdException Geometry := do
  let height := (← params.getValue).toUInt64
  let width ← scaleSecondComponent e originalSize.height (← params.getValue).toUInt64
    originalSize.width
  return { width, height }

/-- `calculate_result_size`. -/
def calculateResultSize (e : FloatErrors) (originalSize : Geometry) (params : ResizeParams) :
    Except StdException Geometry :=
  match params.mode with
  | .width => sizeOfWidth e originalSize params
  | .height => sizeOfHeight e originalSize params
  | .longest =>
    if originalSize.width > originalSize.height then
      sizeOfWidth e originalSize params
    else
      sizeOfHeight e originalSize params
  | .keepOriginal => .error ⟨"bad resize parameters: none of the parameters is defined"⟩

/-! ## The error of the second side -/

/-- An integer that fits is converted as it is, if it is not less than one. -/
theorem toNat_atLeastUno {n : ℤ} (h : n < 2 ^ 64) : ((atLeastUno n).toNat : ℤ) = max 1 n := by
  have hcast : (UInt64.ofNat n.toNat).toNat = n.toNat :=
    UInt64.toNat_ofNat_of_lt' (by omega : n.toNat < 2 ^ 64)
  have hiff : 1 < UInt64.ofNat n.toNat ↔ 1 < n.toNat := by
    rw [UInt64.lt_iff_toNat_lt, hcast]
    rfl
  unfold atLeastUno
  rw [Int.floor_intCast]
  simp only [hiff]
  split_ifs
  · rw [hcast]
    omega
  · have hone : (1 : UInt64).toNat = 1 := rfl
    omega

/-- A float computation of `o * v / s` has a relative error of at most `2 ^ -21`. -/
theorem approx_product (ev es eq eo ep : FloatError) {s v o : ℚ} (hs : s ≠ 0) :
    Approx (1 / 2 ^ 21) (o * v / s)
      (perturb ep (perturb eo o * perturb eq (perturb ev v / perturb es s))) := by
  have hquotient := ((approx_perturb ev v).div (approx_perturb es s) (by norm_num) hs).trans
    (approx_perturb eq _) (by norm_num)
  have hproduct := ((approx_perturb eo o).mul hquotient (by norm_num)).trans
    (approx_perturb ep _) (by norm_num)
  rw [mul_div_assoc]
  exact hproduct.mono (by norm_num)

/-- What is rounded to the second side is close to the exact value. -/
theorem scaleSecondComponent_approx (e : FloatErrors) {sourceLen destLen : UInt64}
    (second : UInt64) (hdest : destLen ≠ 0) (hsource : (sourceLen.toNat : ℚ) ≠ 0) :
    ∃ y, Approx (1 / 2 ^ 21 : ℚ) (second.toNat * destLen.toNat / sourceLen.toNat) y ∧
      scaleSecondComponent e sourceLen destLen second = .ok (atLeastUno (roundHalfAway y)) := by
  unfold scaleSecondComponent
  rw [if_neg hdest]
  refine ⟨_, ?_, rfl⟩
  exact approx_product (e.destLen destLen) (e.sourceLen sourceLen) (e.quotient _ _)
    (e.secondComponent second) (e.product _ _) hsource

/-- Up to rounding and the errors of the floats, `result` is to `other` as `v` is to `scaled`. -/
def Proportional (v scaled other result : ℚ) : Prop :=
  |result - other * v / scaled| ≤ 1 / 2 + other * v / scaled / 2 ^ 21

/-- The nearest integer to an approximation of the proportional value is proportional. -/
theorem proportional_of_approx {v scaled other y : ℚ} {n : ℤ} (hx : 0 ≤ other * v / scaled)
    (happrox : Approx (1 / 2 ^ 21) (other * v / scaled) y) (hround : |(n : ℚ) - y| ≤ 1 / 2) :
    Proportional v scaled other n := by
  have htri : |(n : ℚ) - other * v / scaled| ≤ |n - y| + |y - other * v / scaled| :=
    abs_sub_le _ _ _
  unfold Approx at happrox
  rw [abs_of_nonneg hx] at happrox
  unfold Proportional
  linarith

/-- The second side is at least one and otherwise proportional. -/
theorem scaleSecondComponent_eq_ok (e : FloatErrors) {sourceLen second : UInt64} (destLen : UInt64)
    (hsource : 1 ≤ sourceLen.toNat) (hdest : 1 ≤ destLen.toNat) (hdest' : destLen.toNat ≤ 5000)
    (hsecond : second.toNat < 2 ^ 32) :
    ∃ result, scaleSecondComponent e sourceLen destLen second = .ok result ∧ 1 ≤ result.toNat ∧
      (result.toNat = 1 ∨
        Proportional destLen.toNat sourceLen.toNat second.toNat result.toNat) := by
  have hne : destLen ≠ 0 := by
    rintro rfl
    exact absurd hdest (by decide)
  have hs : (1 : ℚ) ≤ sourceLen.toNat := by exact_mod_cast hsource
  have hx : (0 : ℚ) ≤ second.toNat * destLen.toNat / sourceLen.toNat := by positivity
  obtain ⟨y, happrox, hok⟩ := scaleSecondComponent_approx e second hne (zero_lt_one.trans_le hs).ne'
  have hprop := proportional_of_approx hx happrox (abs_roundHalfAway_sub_le y)
  have hlt : roundHalfAway y < 2 ^ 64 := by
    have hle : (second.toNat : ℚ) * destLen.toNat / sourceLen.toNat ≤ 2 ^ 32 * 5000 / 1 := by
      gcongr
      · exact_mod_cast hsecond.le
      · exact_mod_cast hdest'
    have hupper := (abs_le.1 hprop).2
    have : (roundHalfAway y : ℚ) < 2 ^ 64 := by linarith
    exact_mod_cast this
  have hnat := toNat_atLeastUno hlt
  refine ⟨_, hok, by omega, ?_⟩
  by_cases hn : roundHalfAway y ≤ 1
  · left
    omega
  · right
    have hcast : ((atLeastUno (roundHalfAway y)).toNat : ℤ) = roundHalfAway y := by omega
    have hcast' : ((atLeastUno (roundHalfAway y)).toNat : ℚ) = roundHalfAway y := by
      exact_mod_cast hcast
    rw [hcast']
    exact hprop

/-! ## The result -/

/-- One side of a result is the value asked for, and the other one is scaled like it. -/
structure Scaled (v : UInt32) (scaled other requested result : UInt64) : Prop where
  requested_eq : requested.toNat = v.toNat
  one_le_result : 1 ≤ result.toNat
  result_eq : result.toNat = 1 ∨ Proportional v.toNat scaled.toNat other.toNat result.toNat

section Scaled
variable {v : UInt32} {scaled other requested result : UInt64}

/-- The second side is never much longer than the exact value. -/
theorem Scaled.result_le (h : Scaled v scaled other requested result) {x : ℚ} (hx : 1 ≤ x)
    (hle : (other.toNat : ℚ) * v.toNat / scaled.toNat ≤ x) :
    (result.toNat : ℚ) ≤ x + x / 2 ^ 21 + 1 / 2 := by
  rcases h.result_eq with hone | hprop
  · rw [hone]
    push_cast
    linarith [div_nonneg (zero_le_one.trans hx) (by norm_num : (0 : ℚ) ≤ 2 ^ 21)]
  · have hupper := (abs_le.1 hprop).2
    linarith [div_le_div_of_nonneg_right hle (by norm_num : (0 : ℚ) ≤ 2 ^ 21)]

/-- The number of pixels does not leave 64 bits. -/
theorem Scaled.area_lt (h : Scaled v scaled other requested result) (hv : v.toNat ≤ 5000)
    (hscaled : 1 ≤ scaled.toNat) (hother : other.toNat < 2 ^ 32) :
    requested.toNat * result.toNat < 2 ^ 64 := by
  have hle : (other.toNat : ℚ) * v.toNat / scaled.toNat ≤ 2 ^ 32 * 5000 / 1 := by
    gcongr
    · exact_mod_cast hother.le
    · exact_mod_cast hv
    · exact_mod_cast hscaled
  have hresult := h.result_le (by norm_num) hle
  have hlt : (result.toNat : ℚ) < 2 ^ 45 := by
    linarith only [hresult, (by norm_num : (2 : ℚ) ^ 32 * 5000 / 1 +
      2 ^ 32 * 5000 / 1 / 2 ^ 21 + 1 / 2 < 2 ^ 45)]
  have hlt' : result.toNat < 2 ^ 45 := by exact_mod_cast hlt
  calc requested.toNat * result.toNat ≤ 5000 * 2 ^ 45 := by
        rw [h.requested_eq]
        exact Nat.mul_le_mul hv hlt'.le
    _ < 2 ^ 64 := by norm_num

/-- Where the longer side of the source is scaled to the value, the shorter one does not overtake
it. -/
theorem Scaled.result_le_requested (h : Scaled v scaled other requested result)
    (hv : 1 ≤ v.toNat) (hv' : v.toNat ≤ 5000) (hle : other.toNat ≤ scaled.toNat) :
    result.toNat ≤ requested.toNat := by
  have hv₁ : (1 : ℚ) ≤ v.toNat := by exact_mod_cast hv
  have hv₂ : (v.toNat : ℚ) ≤ 5000 := by exact_mod_cast hv'
  have hexact : (other.toNat : ℚ) * v.toNat / scaled.toNat ≤ v.toNat := by
    have hratio : (other.toNat : ℚ) / scaled.toNat ≤ 1 :=
      div_le_one_of_le₀ (by exact_mod_cast hle) (by positivity)
    calc (other.toNat : ℚ) * v.toNat / scaled.toNat
      _ = other.toNat / scaled.toNat * v.toNat := by ring
      _ ≤ 1 * v.toNat := by gcongr
      _ = v.toNat := one_mul _
  have hresult := h.result_le hv₁ hexact
  -- The error of the floats is less than the half pixel that is missing to the next integer.
  have hlt : (result.toNat : ℚ) < v.toNat + 1 := by linarith
  have hlt' : result.toNat < v.toNat + 1 := by exact_mod_cast hlt
  rw [h.requested_eq]
  omega

end Scaled

/-- Where the count of pixels fits 64 bits, the check compares the true one with the limit. -/
theorem checkImageSize_eq_ok {size : Geometry} (h : size.area < 2 ^ 64) (limit : UInt64) :
    checkImageSize size limit = .ok () ↔ size.area ≤ limit.toNat := by
  have hproduct : (size.height * size.width).toNat = size.area := by
    rw [UInt64.toNat_mul]
    exact Nat.mod_eq_of_lt h
  unfold checkImageSize
  simp only [gt_iff_lt, UInt64.lt_iff_toNat_lt, hproduct]
  split_ifs with hgt
  · exact iff_of_false nofun (by omega)
  · exact iff_of_true rfl (by omega)

/-- The sizes `calculate_result_size` gives for a source. -/
structure ResultGeometry (source : Geometry) (p : ResizeParams) (size : Geometry) : Prop where
  width : p.mode = .width → Scaled p.value source.width source.height size.width size.height
  height : p.mode = .height → Scaled p.value source.height source.width size.height size.width
  longest : p.mode = .longest → max size.width.toNat size.height.toNat = p.value.toNat ∧
    (source.height.toNat < source.width.toNat →
      Scaled p.value source.width source.height size.width size.height) ∧
    (source.width.toNat ≤ source.height.toNat →
      Scaled p.value source.height source.width size.height size.width)
  area_lt : size.area < 2 ^ 64
  checkImageSize_iff : ∀ limit, checkImageSize size limit = .ok () ↔ size.area ≤ limit.toNat

section Result
variable {source : Geometry} {p : ResizeParams}

/-- Either side of the source can be scaled to the value. -/
theorem exists_scaled (e : FloatErrors) (hp : p.Accepted) (hmode : p.mode ≠ .keepOriginal)
    {scaled other : UInt64} (hscaled : 1 ≤ scaled.toNat) (hother : other.toNat < 2 ^ 32) :
    ∃ result, scaleSecondComponent e scaled p.value.toUInt64 other = .ok result ∧
      Scaled p.value scaled other p.value.toUInt64 result := by
  have hv := hp.value_bounds hmode
  have htoNat : p.value.toUInt64.toNat = p.value.toNat := UInt32.toNat_toUInt64 p.value
  obtain ⟨result, hok, hone, hresult⟩ := scaleSecondComponent_eq_ok e p.value.toUInt64 hscaled
    (by omega) (by omega) hother
  rw [htoNat] at hresult
  exact ⟨result, hok, htoNat, hone, hresult⟩

/-- The width is the one that was asked for, and the height is scaled with it. -/
theorem sizeOfWidth_eq_ok (e : FloatErrors) (hsource : source.Valid) (hp : p.Accepted)
    (hmode : p.mode ≠ .keepOriginal) : ∃ size, sizeOfWidth e source p = .ok size ∧
      Scaled p.value source.width source.height size.width size.height := by
  obtain ⟨height, hok, hscaled⟩ := exists_scaled e hp hmode hsource.one_le_width hsource.height_lt
  refine ⟨⟨p.value.toUInt64, height⟩, ?_, hscaled⟩
  unfold sizeOfWidth
  rw [ResizeParams.getValue_eq hmode]
  simp only [bind, Except.bind, pure, Except.pure, hok]

/-- The height is the one that was asked for, and the width is scaled with it. -/
theorem sizeOfHeight_eq_ok (e : FloatErrors) (hsource : source.Valid) (hp : p.Accepted)
    (hmode : p.mode ≠ .keepOriginal) : ∃ size, sizeOfHeight e source p = .ok size ∧
      Scaled p.value source.height source.width size.height size.width := by
  obtain ⟨width, hok, hscaled⟩ := exists_scaled e hp hmode hsource.one_le_height hsource.width_lt
  refine ⟨⟨width, p.value.toUInt64⟩, ?_, hscaled⟩
  unfold sizeOfHeight
  rw [ResizeParams.getValue_eq hmode]
  simp only [bind, Except.bind, pure, Except.pure, hok]

/-- The width gets the value: it is asked for, or it is the longer side of the source. -/
def WidthRequested (source : Geometry) (p : ResizeParams) : Prop :=
  p.mode = .width ∨ p.mode = .longest ∧ source.height.toNat < source.width.toNat

/-- One of the sides gets the value and the other one is scaled like it. -/
theorem calculateResultSize_eq_ok (e : FloatErrors) (hsource : source.Valid) (hp : p.Accepted)
    (hmode : p.mode ≠ .keepOriginal) : ∃ size, calculateResultSize e source p = .ok size ∧
      (WidthRequested source p →
        Scaled p.value source.width source.height size.width size.height) ∧
      (¬ WidthRequested source p →
        Scaled p.value source.height source.width size.height size.width) := by
  obtain ⟨byWidth, hwidth, hscaledW⟩ := sizeOfWidth_eq_ok e hsource hp hmode
  obtain ⟨byHeight, hheight, hscaledH⟩ := sizeOfHeight_eq_ok e hsource hp hmode
  unfold calculateResultSize WidthRequested
  cases hcase : p.mode with
  | width => exact ⟨byWidth, hwidth, fun _ => hscaledW, fun hnot => absurd (.inl rfl) hnot⟩
  | height => exact ⟨byHeight, hheight, by simp, fun _ => hscaledH⟩
  | longest =>
    have hiff : source.width > source.height ↔ source.height.toNat < source.width.toNat :=
      UInt64.lt_iff_toNat_lt
    by_cases hlonger : source.width > source.height
    · exact ⟨byWidth, (if_pos hlonger).trans hwidth, fun _ => hscaledW,
        fun hnot => absurd (.inr ⟨rfl, hiff.1 hlonger⟩) hnot⟩
    · refine ⟨byHeight, (if_neg hlonger).trans hheight, ?_, fun _ => hscaledH⟩
      rintro (h | ⟨-, hlt⟩)
      · cases h
      · exact absurd (hiff.2 hlt) hlonger
  | keepOriginal => exact absurd hcase hmode

/-- The number of pixels of a calculated size does not leave 64 bits. -/
theorem area_lt_of_eq_ok {e : FloatErrors} {size : Geometry} (hsource : source.Valid)
    (hp : p.Accepted) (hmode : p.mode ≠ .keepOriginal)
    (h : calculateResultSize e source p = .ok size) : size.area < 2 ^ 64 := by
  have hv := hp.value_bounds hmode
  obtain ⟨size', hok, hwidth, hheight⟩ := calculateResultSize_eq_ok e hsource hp hmode
  cases Except.ok.inj (h.symm.trans hok)
  by_cases hw : WidthRequested source p
  · rw [Geometry.area, mul_comm]
    exact (hwidth hw).area_lt hv.2 hsource.one_le_width hsource.height_lt
  · exact (hheight hw).area_lt hv.2 hsource.one_le_height hsource.width_lt

/-- Whatever the floats make of it, a source with sides below `2 ^ 32` has a result with the side
asked for, a proportional second side, and a count of pixels that is checked as it is. -/
theorem result_geometry (e : FloatErrors) (source : Geometry) (p : ResizeParams)
    (hsource : source.Valid) (hp : p.Accepted) (hmode : p.mode ≠ .keepOriginal) :
    ∃ size, calculateResultSize e source p = .ok size ∧ ResultGeometry source p size := by
  have hv := hp.value_bounds hmode
  obtain ⟨size, hok, hwidth, hheight⟩ := calculateResultSize_eq_ok e hsource hp hmode
  have harea := area_lt_of_eq_ok hsource hp hmode hok
  have hnotW : p.mode = .height ∨ p.mode = .longest ∧ source.width.toNat ≤ source.height.toNat →
      ¬ WidthRequested source p := by
    rintro (h | ⟨h, hle⟩) (hw | ⟨hl, hlt⟩)
    · simp [h] at hw
    · simp [h] at hl
    · simp [h] at hw
    · omega
  refine ⟨size, hok, fun h => hwidth (.inl h), fun h => hheight (hnotW (.inl h)), fun h => ?_,
    harea, checkImageSize_eq_ok harea⟩
  have hwidth' : source.height.toNat < source.width.toNat → _ := fun hlt => hwidth (.inr ⟨h, hlt⟩)
  have hheight' : source.width.toNat ≤ source.height.toNat → _ := fun hle =>
    hheight (hnotW (.inr ⟨h, hle⟩))
  refine ⟨?_, hwidth', hheight'⟩
  rcases Nat.lt_or_ge source.height.toNat source.width.toNat with hlt | hle
  · rw [max_eq_left ((hwidth' hlt).result_le_requested hv.1 hv.2 hlt.le)]
    exact (hwidth' hlt).requested_eq
  · rw [max_eq_right ((hheight' hle).result_le_requested hv.1 hv.2 hle)]
    exact (hheight' hle).requested_eq

/-- An image of 4000 to 3000 pixels scaled down. -/
theorem result_geometry_landscape : ∃ size,
    calculateResultSize .exact ⟨4000, 3000⟩ ⟨.longest, 100, nofun⟩ = .ok size ∧
      ResultGeometry ⟨4000, 3000⟩ ⟨.longest, 100, nofun⟩ size :=
  result_geometry .exact ⟨4000, 3000⟩ ⟨.longest, 100, nofun⟩
    ⟨by decide, by decide, by decide, by decide⟩ ⟨⟨none, none, some 100, rfl⟩, rfl⟩ nofun

example : calculateResultSize .exact ⟨4000, 3000⟩ ⟨.longest, 100, nofun⟩ = .ok ⟨100, 75⟩ := by
  decide +kernel

end Result

end Transform

end Shrimp
