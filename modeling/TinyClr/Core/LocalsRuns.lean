import TinyClr.Core.LocalsSpec

/-!
# Runs of the shortcut for locals

Over locals that meet `LocalSig.Agrees` the shortcut ends like the signature parser's version, and
when `NewObject` fails the locals to come have a data type that the garbage collector does not
follow.
-/

namespace TinyClr.Locals

open FieldLayout TypeSystem

variable {sys : TypeSystem} {cr : CrossReferences} {assm depth : Nat}

/-! ### Runs -/

section Runs

variable {newObject : Heap → TypeDefIndex → Option (HResultOr Block × Heap)}
  {sig : List SigItem} {heap : Heap}

end Runs

/-- Two runs that end alike: the same code, and the locals that have been initialised are the
    same. -/
def SameRun : Option (HResultOr Unit × List Local × List SigItem × Heap) →
    Option (HResultOr Unit × List Local × List SigItem × Heap) → Prop
  | some (res, locals, rest), some (res', done, rest') =>
      res = res' ∧ rest = rest' ∧ List.Forall₂ Local.Same (locals.take done.length) done
  | none, none => True
  | _, _ => False

theorem SameRun.cons {x y : Option (HResultOr Unit × List Local × List SigItem × Heap)}
    (h : SameRun x y) {loc loc' : Local} (hloc : loc.Same loc') :
    SameRun (x.bind fun r => some (r.1, loc :: r.2.1, r.2.2.1, r.2.2.2))
      (y.bind fun r => some (r.1, loc' :: r.2.1, r.2.2.1, r.2.2.2)) := by
  rcases x with _ | ⟨res, locals, sig, heap⟩ <;> rcases y with _ | ⟨res', done, sig', heap'⟩
  · exact trivial
  · exact h.elim
  · exact h.elim
  · exact ⟨h.1, h.2.1, .cons hloc h.2.2⟩

/-- While no value type has been created the locals to come are as they were found, and then they
    have a data type. -/
def ToCome (fZeroed : Bool) (locals : List Local) : Prop :=
  ∀ loc ∈ locals, ∃ second, loc = if fZeroed then .tagged .i4 second else .stale second

theorem ToCome.zero {fZeroed : Bool} {locals : List Local} (h : ToCome fZeroed locals)
    (flag : Bool) :
    ToCome (fZeroed || flag) (if flag && !fZeroed then locals.map Local.setI4 else locals) := by
  cases fZeroed with
  | true => simpa using h
  | false =>
    cases flag with
    | false => simpa using h
    | true =>
      intro loc hloc
      simp only [Bool.not_false, Bool.and_self, if_true, List.mem_map] at hloc
      obtain ⟨found, -, rfl⟩ := hloc
      exact ⟨found.second, rfl⟩

end TinyClr.Locals
