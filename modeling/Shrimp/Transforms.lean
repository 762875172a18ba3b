import Mathlib.Data.List.Lex
import Mathlib.Data.Prod.Basic
import Shrimp.CommonTypes
import Shrimp.Lib.KeyOrder

/-!
# Parameters and keys of resize operations

`resize_params_t` and `resize_request_key_t` of `transforms.hpp` with their comparison operators,
the factory that makes the parameters and the constraints they are checked against. Containers
identify keys only through `operator<`; `ResizeRequestKey.equivalent_iff` says that two keys are
equivalent there exactly if they are equal.
-/

namespace Shrimp

open KeyOrder

/-- `resize_params_t::mode_t`, in the order of its enumerators. -/
inductive ResizeParams.Mode
  | width
  | height
  | longest
  | keepOriginal
deriving DecidableEq, Repr

/-- `resize_params_t`. Its constructors are private: the one for `keep_original` leaves the value
zero. -/
structure ResizeParams where
  mode : ResizeParams.Mode
  value : UInt32
  value_eq : mode = .keepOriginal → value = 0
deriving DecidableEq, Repr

namespace ResizeParams

/-- The constructor for `keep_original_size_t`. -/
def keepOriginal : ResizeParams := ⟨.keepOriginal, 0, fun _ => rfl⟩

/-- `resize_params_t::make`. -/
def make (width height maxSide : Option UInt32) : Except StdException ResizeParams :=
  let count := (if width.isSome then 1 else 0) + (if height.isSome then 1 else 0) +
    (if maxSide.isSome then 1 else 0)
  if count = 0 then
    .ok keepOriginal
  else if count ≠ 1 then
    .error ⟨"resize params error: exactly one parameter must be defined"⟩
  else
    match width, height with
    | some width, _ => .ok ⟨.width, width, nofun⟩
    | none, some height => .ok ⟨.height, height, nofun⟩
    -- `max_side` is the one that is defined.
    | none, none => .ok ⟨.longest, maxSide.getD 0, nofun⟩

/-- `resize_params_t::value()`, which throws in `keep_original` mode. -/
def getValue (p : ResizeParams) : Except StdException UInt32 :=
  if p.mode = .keepOriginal then
    .error ⟨"value() is undefined in keep_original mode"⟩
  else
    .ok p.value

end ResizeParams

/-- `resize_params_constraints_t`. -/
structure ResizeParamsConstraints where
  maxSide : UInt32 := 5 * 1000

namespace ResizeParamsConstraints

/-- The names `check` has for the modes. -/
def modeName : ResizeParams.Mode → String
  | .width => "width"
  | .height => "height"
  | .longest => "max_side"
  | .keepOriginal => "keep_original"

/-- `resize_params_constraints_t::check`. -/
def check (c : ResizeParamsConstraints) (p : ResizeParams) : Except StdException Unit := do
  if p.mode ≠ .keepOriginal then
    if (← p.getValue) = 0 then
      throw ⟨"resize params error: " ++ modeName p.mode ++ " cannot be 0"⟩
    if (← p.getValue) > c.maxSide then
      throw ⟨"resize params error: specified " ++ modeName p.mode ++ " (" ++
        toString (← p.getValue) ++ ") is too big, max possible value is " ++ toString c.maxSide⟩

end ResizeParamsConstraints

/-- `resize_request_key_t`. -/
structure ResizeRequestKey where
  path : CxxString
  format : ImageFormat
  params : ResizeParams
deriving DecidableEq, Repr

/-- `std::tie(a.1, a.2) < std::tie(b.1, b.2)`, where `r` and `s` compare the components. -/
def tieLT {α β : Type} (r : α → α → Prop) (s : β → β → Prop) (a b : α × β) : Prop :=
  r a.1 b.1 ∨ ¬ r b.1 a.1 ∧ s a.2 b.2

instance {α β : Type} (r : α → α → Prop) (s : β → β → Prop) [DecidableRel r] [DecidableRel s]
    (a b : α × β) : Decidable (tieLT r s a b) := inferInstanceAs (Decidable (_ ∨ _))

/-- The value of an enumerator of `image_format_t`. -/
def ImageFormat.toNat (f : ImageFormat) : Nat := f.ctorIdx

/-- The value of an enumerator of `mode_t`. -/
def ResizeParams.Mode.toNat (m : ResizeParams.Mode) : Nat := m.ctorIdx

instance : LT ImageFormat := ⟨fun a b => a.toNat < b.toNat⟩
instance : LT ResizeParams.Mode := ⟨fun a b => a.toNat < b.toNat⟩
instance : DecidableLT ImageFormat := fun a b => inferInstanceAs (Decidable (a.toNat < b.toNat))
instance : DecidableLT ResizeParams.Mode := fun a b =>
  inferInstanceAs (Decidable (a.toNat < b.toNat))

/-- The members of `resize_params_t` as `std::tie` takes them. -/
def ResizeParams.tie (p : ResizeParams) : Mode × UInt32 := (p.mode, p.value)

/-- `resize_params_t::operator<`. -/
instance : LT ResizeParams := ⟨fun a b => tieLT (· < ·) (· < ·) a.tie b.tie⟩

instance : DecidableLT ResizeParams := fun a b =>
  inferInstanceAs (Decidable (tieLT (· < ·) (· < ·) a.tie b.tie))

/-- The members of `resize_request_key_t` as `std::tie` takes them. -/
def ResizeRequestKey.tie (k : ResizeRequestKey) : CxxString × ImageFormat × ResizeParams :=
  (k.path, k.format, k.params)

/-- `resize_request_key_t::operator<`. -/
instance : LT ResizeRequestKey :=
  ⟨fun a b => tieLT (· < ·) (tieLT (· < ·) (· < ·)) a.tie b.tie⟩

instance : DecidableLT ResizeRequestKey := fun a b =>
  inferInstanceAs (Decidable (tieLT (· < ·) (tieLT (· < ·) (· < ·)) a.tie b.tie))

/-! ## Which parameters are accepted -/

/-- Parameters that do not keep the original have a value. -/
theorem ResizeParams.getValue_eq {p : ResizeParams} (h : p.mode ≠ .keepOriginal) :
    p.getValue = .ok p.value := if_neg h

/-- `make` gives parameters exactly if at most one value is given, and the mode is that of the
value. -/
theorem ResizeParams.make_eq_ok {width height maxSide : Option UInt32} {p : ResizeParams} :
    make width height maxSide = .ok p ↔
      width = none ∧ height = none ∧ maxSide = none ∧ p = keepOriginal ∨
      width = some p.value ∧ height = none ∧ maxSide = none ∧ p.mode = .width ∨
      width = none ∧ height = some p.value ∧ maxSide = none ∧ p.mode = .height ∨
      width = none ∧ height = none ∧ maxSide = some p.value ∧ p.mode = .longest := by
  obtain ⟨mode, value, hvalue⟩ := p
  cases width <;> cases height <;> cases maxSide <;>
    simp [make, keepOriginal] <;> grind

/-- `check` accepts parameters exactly if their value, where they have one, is from 1 to the
maximum. -/
theorem ResizeParamsConstraints.check_eq_ok {c : ResizeParamsConstraints} {p : ResizeParams} :
    c.check p = .ok () ↔ p.mode = .keepOriginal ∨ p.value ≠ 0 ∧ p.value ≤ c.maxSide := by
  unfold check
  by_cases hmode : p.mode = .keepOriginal
  · simp [hmode, pure, Except.pure]
  · rw [if_pos hmode, ResizeParams.getValue_eq hmode]
    by_cases hzero : p.value = 0
    · simp [hmode, hzero, bind, Except.bind, throw, throwThe, MonadExceptOf.throw]
    · by_cases hbig : c.maxSide < p.value
      · simp [hmode, hzero, hbig, bind, Except.bind, throw, throwThe, MonadExceptOf.throw]
      · simp [hmode, hzero, hbig, bind, Except.bind, pure, Except.pure, UInt32.not_lt.1 hbig]

/-- The parameters a request may have: `make` gives them and the default constraints hold. -/
def ResizeParams.Accepted (p : ResizeParams) : Prop :=
  (∃ width height maxSide, make width height maxSide = .ok p) ∧
    ResizeParamsConstraints.check {} p = .ok ()

/-- The default constraints let through what keeps the original, and sides from 1 to 5000. -/
theorem ResizeParamsConstraints.check_default_eq_ok {p : ResizeParams} :
    check {} p = .ok () ↔
      p.mode = .keepOriginal ∨ 1 ≤ p.value.toNat ∧ p.value.toNat ≤ 5000 := by
  have hzero : p.value ≠ 0 ↔ 1 ≤ p.value.toNat := by
    rw [Nat.one_le_iff_ne_zero]
    exact not_congr UInt32.toNat_inj.symm
  rw [check_eq_ok, hzero, UInt32.le_iff_toNat_le]
  rfl

/-- Accepted parameters that do not keep the original ask for a side from 1 to 5000. -/
theorem ResizeParams.Accepted.value_bounds {p : ResizeParams} (h : p.Accepted)
    (hmode : p.mode ≠ .keepOriginal) : 1 ≤ p.value.toNat ∧ p.value.toNat ≤ 5000 :=
  (ResizeParamsConstraints.check_default_eq_ok.1 h.2).resolve_left hmode

/-! ## The comparison is a total order -/

section Tie
variable {α β : Type} {r : α → α → Prop} {s : β → β → Prop}

/-- Comparing tuples is the lexicographic order of their components. -/
theorem tieLT_iff [IsStrictTotalOrder α r] (a b : α × β) : tieLT r s a b ↔ Prod.Lex r s a b := by
  rw [tieLT, Prod.lex_iff]
  constructor
  · rintro (h | ⟨hnot, h⟩)
    · exact .inl h
    · by_cases hlt : r a.1 b.1
      · exact .inl hlt
      · exact .inr ⟨Std.Trichotomous.trichotomous (r := r) a.1 b.1 hlt hnot, h⟩
  · rintro (h | ⟨heq, h⟩)
    · exact .inl h
    · exact .inr ⟨heq ▸ irrefl_of r a.1, h⟩

instance [IsStrictTotalOrder α r] [IsStrictTotalOrder β s] :
    IsStrictTotalOrder (α × β) (tieLT r s) := by
  have heq : tieLT r s = Prod.Lex r s := by
    funext a b
    exact propext (tieLT_iff a b)
  rw [heq]
  exact {}

end Tie

/-- A strict total order seen through an injective map is one. -/
theorem isStrictTotalOrder_of_injective {α β : Type} {r : β → β → Prop} [IsStrictTotalOrder β r]
    (f : α → β) (hf : Function.Injective f) :
    IsStrictTotalOrder α fun a b => r (f a) (f b) where
  irrefl a := irrefl_of r (f a)
  trans _ _ _ := trans_of r
  trichotomous a b hab hba := hf (Std.Trichotomous.trichotomous (r := r) (f a) (f b) hab hba)

instance : IsStrictTotalOrder ImageFormat (· < ·) :=
  isStrictTotalOrder_of_injective (r := (· < ·)) ImageFormat.toNat fun a b h => by
    cases a <;> cases b <;> first | rfl | exact absurd h (by decide)

instance : IsStrictTotalOrder ResizeParams.Mode (· < ·) :=
  isStrictTotalOrder_of_injective (r := (· < ·)) ResizeParams.Mode.toNat fun a b h => by
    cases a <;> cases b <;> first | rfl | exact absurd h (by decide)

instance uint8_isStrictTotalOrder : IsStrictTotalOrder UInt8 (· < ·) :=
  isStrictTotalOrder_of_injective (r := (· < ·)) UInt8.toNat fun _ _ h => UInt8.toNat_inj.1 h

instance uint32_isStrictTotalOrder : IsStrictTotalOrder UInt32 (· < ·) :=
  isStrictTotalOrder_of_injective (r := (· < ·)) UInt32.toNat fun _ _ h => UInt32.toNat_inj.1 h

instance : IsStrictTotalOrder CxxString (· < ·) :=
  have : IsStrictWeakOrder (List UInt8) (List.Lex (· < ·)) := isStrictWeakOrder_of_isOrderConnected
  have : IsStrictTotalOrder (List UInt8) (List.Lex (· < ·)) := {}
  this

instance : IsStrictTotalOrder ResizeParams (· < ·) :=
  isStrictTotalOrder_of_injective (r := tieLT (· < ·) (· < ·)) ResizeParams.tie fun a b h => by
    cases a
    cases b
    simpa [ResizeParams.tie] using h

instance : IsStrictTotalOrder ResizeRequestKey (· < ·) :=
  isStrictTotalOrder_of_injective (r := tieLT (· < ·) (tieLT (· < ·) (· < ·)))
    ResizeRequestKey.tie fun a b h => by
      cases a
      cases b
      simpa [ResizeRequestKey.tie] using h

/-- Neither of two keys is less exactly if they are equal: the containers, which see keys only
through `operator<`, never merge two different requests. -/
theorem ResizeRequestKey.equivalent_iff (a b : ResizeRequestKey) : Equivalent a b ↔ a = b :=
  equiv_iff_eq

/-! ## Keys of the same request -/

/-- `make` can be asked for all parameters there are. -/
theorem ResizeParams.exists_make (p : ResizeParams) :
    ∃ width height maxSide, make width height maxSide = .ok p := by
  cases hmode : p.mode with
  | width => exact ⟨some p.value, none, none, make_eq_ok.2 (.inr (.inl ⟨rfl, rfl, rfl, hmode⟩))⟩
  | height =>
    exact ⟨none, some p.value, none, make_eq_ok.2 (.inr (.inr (.inl ⟨rfl, rfl, rfl, hmode⟩)))⟩
  | longest =>
    exact ⟨none, none, some p.value, make_eq_ok.2 (.inr (.inr (.inr ⟨rfl, rfl, rfl, hmode⟩)))⟩
  | keepOriginal =>
    refine ⟨none, none, none, make_eq_ok.2 (.inl ⟨rfl, rfl, rfl, ?_⟩)⟩
    have hvalue := p.value_eq hmode
    cases p
    cases hmode
    cases hvalue
    rfl

/-- The keys ask for the same image in the same format and mode and, where the mode takes one, with
the same value. -/
structure ResizeRequestKey.SameRequest (a b : ResizeRequestKey) : Prop where
  path : a.path = b.path
  format : a.format = b.format
  mode : a.params.mode = b.params.mode
  value : a.params.mode ≠ .keepOriginal → a.params.value = b.params.value

instance (a b : ResizeRequestKey) : Decidable (a.SameRequest b) :=
  decidable_of_iff (a.path = b.path ∧ a.format = b.format ∧ a.params.mode = b.params.mode ∧
      (a.params.mode ≠ .keepOriginal → a.params.value = b.params.value))
    ⟨fun h => ⟨h.1, h.2.1, h.2.2.1, h.2.2.2⟩, fun h => ⟨h.path, h.format, h.mode, h.value⟩⟩

/-- The value of a mode that takes none is no difference: the constructor sets it. -/
theorem ResizeParams.value_eq_of_mode {p p' : ResizeParams} (hmode : p.mode = p'.mode)
    (hvalue : p.mode ≠ .keepOriginal → p.value = p'.value) : p.value = p'.value := by
  by_cases hkeep : p.mode = .keepOriginal
  · rw [p.value_eq hkeep, p'.value_eq (hmode ▸ hkeep)]
  · exact hvalue hkeep

/-- Keys of the same request are equal. -/
theorem ResizeRequestKey.sameRequest_iff_eq {a b : ResizeRequestKey} : a.SameRequest b ↔ a = b := by
  constructor
  · intro h
    have hvalue := ResizeParams.value_eq_of_mode h.mode h.value
    obtain ⟨path, format, ⟨mode, value, _⟩⟩ := a
    obtain ⟨path', format', ⟨mode', value', _⟩⟩ := b
    cases h.path
    cases h.format
    cases h.mode
    cases hvalue
    rfl
  · rintro rfl
    exact ⟨rfl, rfl, rfl, fun _ => rfl⟩

/-- Keys are equivalent exactly if they are of the same request. -/
theorem ResizeRequestKey.equivalent_iff_sameRequest (a b : ResizeRequestKey) :
    Equivalent a b ↔ a.SameRequest b := (equivalent_iff a b).trans sameRequest_iff_eq.symm

end Shrimp
