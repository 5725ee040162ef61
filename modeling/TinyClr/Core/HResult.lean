import Mathlib.Init

/-!
# Result codes

The `HRESULT`s the modelled functions return: `S_OK` or a failure code.  `Failure.other` stands
for a code that comes out of a part of the type system that is a parameter of the model.
-/

namespace TinyClr

/-- The failure codes `CLR_E_…`. -/
inductive Failure where
  | invalidOperation
  | invalidParameter
  | outOfRange
  | outOfMemory
  | invalidCast
  | wrongType
  | nullReference
  | notSupported
  | fail
  | other (code : Int)
deriving DecidableEq, Repr

inductive HResult where
  | ok
  | failed (code : Failure)
deriving DecidableEq, Repr

/-- A value produced together with success, or a failure code. -/
abbrev HResultOr (α : Type*) := Except Failure α

end TinyClr
