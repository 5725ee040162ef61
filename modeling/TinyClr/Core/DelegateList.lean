import TinyClr.Core.DataType
import TinyClr.Core.HResult
import Mathlib.Data.List.Basic
import Mathlib.Logic.Function.Basic
import Mathlib.Tactic.Common

/-!
# Delegate lists

`CLR_RT_HeapBlock_Delegate_List` (`CLR/Core/CLR_RT_HeapBlock_Delegate_List.cpp`) and the sequence
that `Execute_DelegateInvoke` (`CLR/Core/Interpreter.cpp`) calls.

Objects have addresses, NULL is `none`.  Reading an address where no delegate stands, or a slot
outside of a list, is a fault, `none`.
-/

namespace TinyClr.Delegates

/-! ### Objects -/

/-- A heap block as the delegates use it: whether it is a `DATATYPE_OBJECT`, and its pointer -/
structure Reference where
  isObject : Bool
  ptr : Option Nat
deriving DecidableEq, Repr

def setObjectReference (ptr : Option Nat) : Reference where
  isObject := true
  ptr := ptr

/-- `CLR_RT_HeapBlock_Delegate`; `object` is what `m_object` points to. -/
structure Delegate where
  cls : UInt32
  ftn : UInt32
  object : Option Nat
deriving DecidableEq, Repr

/-- `CLR_RT_HeapBlock_Delegate_List`; `delegates` are the slots behind its header. -/
structure DelegateList where
  cls : UInt32
  length : Nat
  flags : UInt32
  delegates : List Reference
deriving DecidableEq, Repr

def c_Weak : UInt32 := 1

inductive HeapObject where
  | delegate (d : Delegate)
  | delegateList (list : DelegateList)
  | other
deriving DecidableEq, Repr

/-- The objects, where the next one goes, how many heap blocks are left, and what stands in memory
    before it is written -/
structure Heap where
  objects : Nat → Option HeapObject
  next : Nat
  room : Nat
  garbage : Nat → Reference

namespace Heap

variable (s : Heap)

def set (list : Nat) (dlgList : DelegateList) : Heap :=
  { s with objects := Function.update s.objects list (some (.delegateList dlgList)) }

def delegate (dlg : Nat) : Option Delegate :=
  match s.objects dlg with
  | some (.delegate d) => some d
  | _ => none

def delegateList (list : Nat) : Option DelegateList :=
  match s.objects list with
  | some (.delegateList l) => some l
  | _ => none

/-- `CreateInstance`: two heap blocks for the header, and one for each delegate -/
def createInstance (length : Nat) : HResultOr Nat × Heap :=
  if 2 + length > HB_MaxSize ∨ 2 + length > s.room then (.error .outOfMemory, s)
  else
    (.ok s.next,
      { s with
        objects := Function.update s.objects s.next (some (.delegateList
          { cls := 0, length := length, flags := 0, delegates := (List.range length).map s.garbage }))
        next := s.next + 1
        room := s.room - (2 + length) })

end Heap

/-! ### `Change` -/

/-- `CopyAndCompress` of `num` slots from `src` on, into `list` from `dst` on -/
def copyAndCompress : Nat → List Reference → DelegateList → Nat → Option (DelegateList × Nat)
  | 0, _, list, dst => some (list, dst)
  | _ + 1, [], _, _ => none
  | num + 1, src :: srcs, list, dst =>
      match src.ptr with
      | some dlg =>
          if dst < list.delegates.length then
            copyAndCompress num srcs
              { list with delegates := list.delegates.set dst (setObjectReference (some dlg)) }
              (dst + 1)
          else none
      | none => copyAndCompress num srcs { list with length := list.length - 1 } dst

/-- The loop of `Change` that looks for the delegate to remove: the final `num` -/
def search (s : Heap) (dlg : Delegate) : Nat → Nat → List Reference → Option Nat
  | 0, num, _ => some num
  | _ + 1, _, [] => none
  | oldNum + 1, num, newDlgs :: rest =>
      match newDlgs.ptr with
      | some ptr => do
          let d ← s.delegate ptr
          if d.ftn = dlg.ftn ∧ d.object = dlg.object then some num
          else search s dlg oldNum (num + 1) rest
      | none => search s dlg oldNum (num + 1) rest

/-- The old delegates of `Change`: the slots, their number, and `m_flags` when they stand in a
    list -/
structure OldDelegates where
  oldDlgs : List Reference
  oldNum : Nat
  flags : Option UInt32

/-- `switch(dlgListSrc->DataType())`; the result of the inner option is the delegates, or
    `CLR_E_WRONG_TYPE` -/
def oldDelegates (s : Heap) (delegateSrc : Reference) : Option (HResultOr OldDelegates) :=
  match delegateSrc.ptr with
  | none => some (.ok { oldDlgs := [], oldNum := 0, flags := none })
  | some dlgListSrc =>
      match s.objects dlgListSrc with
      | none => none
      | some (.delegate _) => some (.ok { oldDlgs := [delegateSrc], oldNum := 1, flags := none })
      | some (.delegateList l) =>
          some (.ok { oldDlgs := l.delegates, oldNum := l.length, flags := some l.flags })
      | some .other => some (.error .wrongType)

/-- `m_flags` of the new list before the weak flag is set: those of the old one, which is read
    when there are several delegates -/
def oldFlags (old : OldDelegates) : Option UInt32 :=
  if old.oldNum > 1 then old.flags else some 0

abbrev Changed := HResult × Reference × Heap

/-- `Change` from `CreateInstance` on; `fill` copies the old delegates into the new list. -/
def changeList (s : Heap) (dlg : Delegate) (old : OldDelegates) (newNum : Nat) (fWeak : Bool)
    (fill : DelegateList → Option DelegateList) : Option Changed :=
  match s.createInstance newNum with
  | (.error code, s) => some (.failed code, setObjectReference none, s)
  | (.ok dlgListDst, s) => do
      let list ← s.delegateList dlgListDst
      let list ← fill { list with cls := dlg.cls }
      let flags ← oldFlags old
      let flags := if fWeak then flags ||| c_Weak else flags
      some (.ok, setObjectReference (some dlgListDst), s.set dlgListDst { list with flags := flags })

/-- `Change` for a delegate that is added -/
def combineDelegate (s : Heap) (dlg : Delegate) (delegateTarget : Reference) (old : OldDelegates)
    (fWeak : Bool) : Option Changed :=
  if old.oldNum = 0 ∧ fWeak = false then some (.ok, delegateTarget, s)
  else
    changeList s dlg old (old.oldNum + 1) fWeak fun list => do
      let (list, newDlgs) ← copyAndCompress old.oldNum old.oldDlgs list 0
      if newDlgs < list.delegates.length then
        some { list with delegates := list.delegates.set newDlgs delegateTarget }
      else none

/-- `Change` for a delegate that is removed -/
def removeDelegate (s : Heap) (dlg : Delegate) (delegateSrc : Reference) (old : OldDelegates)
    (fWeak : Bool) : Option Changed := do
  let num ← search s dlg old.oldNum 0 old.oldDlgs
  if num = old.oldNum then some (.ok, delegateSrc, s)
  else
    let strong ←
      if old.oldNum = 2 then do
        let flags ← old.flags
        some (flags &&& c_Weak == 0)
      else some false
    if strong then do
      let reference ← old.oldDlgs[1 - num]?
      some (.ok, reference, s)
    else if old.oldNum = 1 then some (.ok, setObjectReference none, s)
    else
      changeList s dlg old (old.oldNum - 1) fWeak fun list => do
        let (list, newDlgs) ← copyAndCompress num old.oldDlgs list 0
        let (list, _) ← copyAndCompress (old.oldNum - (num + 1)) (old.oldDlgs.drop (num + 1)) list
          newDlgs
        some list

/-- The loop of `Change` over the delegates of a list that is added or removed; the first argument
    is how many are left, and `num` the next one. -/
def changeEach (change : Heap → Reference → Reference → Option Changed) (dlgListDst : Nat) :
    Nat → Nat → Heap → Reference → Reference → Option Changed
  | 0, _, s, reference, _ => some (.ok, reference, s)
  | left + 1, num, s, reference, intermediate => do
      let list ← s.delegateList dlgListDst
      let newDlgs ← list.delegates[num]?
      -- the delegate could have been collected
      if newDlgs.isObject && newDlgs.ptr.isSome then
        match ← change s intermediate newDlgs with
        | (.failed code, reference, s) => some (.failed code, reference, s)
        | (.ok, reference, s) =>
            changeEach change dlgListDst left (num + 1) s reference reference
      else changeEach change dlgListDst left (num + 1) s reference intermediate

/-- `Change`; the first argument bounds how deep lists may stand in lists. -/
def change (fCombine fWeak : Bool) : Nat → Heap → Reference → Reference → Option Changed
  | 0, _, _, _ => none
  | depth + 1, s, delegateSrc, delegateTarget =>
      let reference := setObjectReference none
      if delegateSrc.isObject = false ∨ delegateTarget.isObject = false then
        some (.failed .wrongType, reference, s)
      else
        match delegateTarget.ptr with
        | none => some (.ok, setObjectReference delegateSrc.ptr, s)
        | some dlg =>
            match s.objects dlg with
            | some (.delegateList list) =>
                changeEach (change fCombine fWeak depth) dlg list.length 0 s reference delegateSrc
            | some (.delegate d) => do
                match ← oldDelegates s delegateSrc with
                | .error code => some (.failed code, reference, s)
                | .ok old =>
                    if fCombine then combineDelegate s d delegateTarget old fWeak
                    else removeDelegate s d delegateSrc old fWeak
            | _ => none

def combine (depth : Nat) (s : Heap) (delegateSrc delegateNew : Reference) (fWeak : Bool) :
    Option Changed :=
  change true fWeak depth s delegateSrc delegateNew

def remove (depth : Nat) (s : Heap) (delegateSrc delegateOld : Reference) : Option Changed :=
  change false false depth s delegateSrc delegateOld

/-! ### The calls of an invocation -/

def live (slots : List Reference) : List Nat :=
  slots.filterMap Reference.ptr

/-- `Execute_DelegateInvoke`: the delegates it calls, in order; an entry that is NULL or no
    delegate is passed over. -/
def invocation (s : Heap) (r : Reference) : List Nat :=
  match r.ptr with
  | none => []
  | some dlg =>
      match s.objects dlg with
      | some (.delegate _) => [dlg]
      | some (.delegateList list) =>
          (live (list.delegates.take list.length)).filter fun d => (s.delegate d).isSome
      | _ => []

end TinyClr.Delegates
