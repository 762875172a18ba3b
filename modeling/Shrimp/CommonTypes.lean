import Mathlib.Algebra.Group.Int.Defs
import Mathlib.Algebra.GroupWithZero.Nat
import Mathlib.Data.List.Basic

/-!
# Common types

The types of `common_types.hpp` and of the libraries it rests on, as far as the transform manager,
the workers and the containers use them, and the ways in which the code can go wrong at run time.
-/

namespace Shrimp

/-- What the code must never do: use an iterator to an erased element, call `value()` of an empty
`optional` or `top()` of an empty `stack`, use a request handle after it was moved out, or loop for
ever. -/
inductive Fault
  | danglingIterator
  | badOptionalAccess
  | emptyStack
  | movedHandle
  | diverged
deriving DecidableEq, Repr

/-- `std::optional::value()`. -/
def optionalValue {α : Type*} : Option α → Except Fault α
  | some x => .ok x
  | none => .error .badOptionalAccess

/-- The use of an iterator, `none` where it denotes no element. -/
def iterator {α : Type*} : Option α → Except Fault α
  | some x => .ok x
  | none => .error .danglingIterator

@[simp] theorem optionalValue_some {α : Type*} (x : α) : optionalValue (some x) = .ok x := rfl
@[simp] theorem iterator_some {α : Type*} (x : α) : iterator (some x) = .ok x := rfl

/-- `std::string`, a sequence of bytes. -/
abbrev CxxString := List UInt8

/-- The bytes of a string literal, which are ASCII throughout. -/
def cxxString (literal : String) : CxxString := literal.toList.map fun c => c.val.toUInt8

/-- `std::exception` with its `what()`. All exceptions of the code itself are `exception_t`s. -/
structure StdException where
  what : String
deriving DecidableEq, Repr

/-- A reading of `std::chrono::steady_clock`, in nanoseconds. -/
abbrev TimePoint := Int

/-- The readings of the clock, the `n`-th one taken being `clock n`. -/
abbrev Clock := Nat → TimePoint

/-- `image_format_t`, in the order of its enumerators. -/
inductive ImageFormat
  | gif
  | jpeg
  | png
  | webp
  | heic
deriving DecidableEq, Repr

/-- `Magick::Blob`: where the encoded bytes are and how many. -/
structure Blob where
  data : Nat
  length : UInt64
deriving DecidableEq, Repr

/-- `datasizable_blob_t`. -/
structure DatasizableBlob where
  blob : Blob
  lastModifiedAt : Int
deriving DecidableEq, Repr

/-- `datasizable_blob_t::size`. -/
def DatasizableBlob.size (b : DatasizableBlob) : UInt64 := b.blob.length

/-- `so_5::mbox_t`, the mailbox of an agent. -/
structure Mbox where
  id : Nat
deriving DecidableEq, Repr

/-- A live `restinio::request_handle_t`. The requests the HTTP-server accepted are numbered, and the
header of a request tells whether its client wants to keep the connection. -/
structure RequestHandle where
  id : Nat
  shouldKeepAlive : Bool
deriving DecidableEq, Repr

/-- A request as a route handler gets it: its handle, and path and query string from its header. -/
structure HttpRequest where
  handle : RequestHandle
  path : CxxString
  query : CxxString
deriving DecidableEq, Repr

/-- The move out of a `request_handle_t`, or a call through it: `none` is a handle that was moved
out before. -/
def requestHandle : Option RequestHandle → Except Fault RequestHandle
  | some req => .ok req
  | none => .error .movedHandle

@[simp] theorem requestHandle_some (req : RequestHandle) : requestHandle (some req) = .ok req := rfl

end Shrimp
