import TinyClr.Core.HResult
import TinyClr.Core.TypeSystem
import Mathlib.Logic.Function.Basic

/-!
# Stack frames

`Push`, `Pop`, `PushInline` and `PopInline` of `CLR_RT_StackFrame` with the three functions that save
and restore a frame (`CLR/Core/CLR_RT_StackFrame.cpp`), the inline buffers of the event cache
(`CLR/Core/Cache.cpp`), and what running IL and the end of a filter do to a frame
(`CLR/Core/Interpreter.cpp`, `CLR/Core/Thread.cpp`).

The memory holds one heap block at each address.  The parts for the debugger, the profiler,
application domains and the jitter are left out.  A step is `none` where it would follow NULL, or read
a pointer out of an inline buffer that holds a frame.
-/

namespace TinyClr.StackFrame

/-! ### Methods -/

def CLR_EmptyIndex : UInt16 := 0xFFFF

def MD_Static : UInt32 := 0x00000010

def MD_Constructor : UInt32 := 0x00001000

def MD_DelegateInvoke : UInt32 := 0x00020000

def MD_Synchronized : UInt32 := 0x01000000

def MD_GloballySynchronized : UInt32 := 0x02000000

def MD_HasExceptionHandlers : UInt32 := 0x40000000

/-- `CLR_RECORD_METHODDEF`, as far as calls use it -/
structure MethodDef where
  rva : UInt16
  flags : UInt32
  retVal : DataType
  numArgs : Nat
  numLocals : Nat
  lengthEvalStack : Nat
deriving DecidableEq, Repr

/-- `m_nativeCode` of an assembly, and where its byte code starts -/
structure Assembly where
  nativeCode : Option (Nat → Option Nat)
  byteCode : Nat

def Assembly.getByteCode (assm : Assembly) (i : UInt16) : Nat := assm.byteCode + i.toNat

structure MethodDefInstance where
  assm : Assembly
  method : Nat
  target : MethodDef

def MethodDefInstance.nativeCode (m : MethodDefInstance) : Option Nat :=
  m.assm.nativeCode.bind fun table => table m.method

/-- `CLR_RT_MethodHandler`: `Execute_IL`, `Execute_DelegateInvoke` or a native method -/
inductive MethodHandler where
  | executeIL
  | executeDelegateInvoke
  | native (impl : Nat)
deriving DecidableEq, Repr

/-! ### Frames -/

def c_OverheadForNewObjOrInteropMethod : Nat := 2

def c_MinimumStack : Nat := 10

/-- The bits of `m_flags` that calls look at -/
structure Flags where
  interpreted : Bool
  inlined : Bool
  executingConstructor : Bool
  needToSynchronize : Bool
  needToSynchronizeGlobally : Bool
  callerIsCompatibleForCall : Bool
  callerIsCompatibleForRet : Bool
  pseudoStackFrameForFilter : Bool
  inlineMethodHasReturnValue : Bool
deriving DecidableEq, Repr

def Flags.native : Flags :=
  ⟨false, false, false, false, false, false, false, false, false⟩

/-- `CLR_RT_StackFrame` -/
structure Frame where
  nativeMethod : MethodHandler
  flags : Flags
  call : MethodDefInstance
  arguments : Int
  locals : Int
  ip : Option Nat
  ipStart : Option Nat
  evalStack : Int
  evalStackPos : Int
  evalStackEnd : Int
  inlineFrame : Option Nat

structure InlineFrame where
  locals : Int
  args : Int
  evalStack : Int
  evalPos : Int
  call : MethodDefInstance
  ip : Option Nat
  ipStart : Option Nat

/-! ### Inline buffers -/

inductive InlineBuffer where
  | next (pNext : Option Nat)
  | frame (frame : InlineFrame)

/-- The inline buffers of `CLR_RT_EventCache` -/
structure EventCache where
  inlineBufferStart : Option Nat
  buffers : Nat → InlineBuffer

/-- The buffers as `EventCache_Initialize` links them; there is at least one. -/
def EventCache.ofCount (count : Nat) : EventCache where
  inlineBufferStart := some 0
  buffers := fun i => .next (if i + 1 < count then some (i + 1) else none)

def EventCache.getInlineFrameBuffer (cache : EventCache) : Option (Option Nat × EventCache) :=
  match cache.inlineBufferStart with
  | none => some (none, cache)
  | some p =>
      match cache.buffers p with
      | .frame _ => none
      | .next pNext => some (some p, { cache with inlineBufferStart := pNext })

def EventCache.setFrame (cache : EventCache) (p : Nat) (frame : InlineFrame) : EventCache :=
  { cache with buffers := Function.update cache.buffers p (.frame frame) }

def EventCache.freeInlineBuffer (cache : EventCache) (p : Nat) : EventCache where
  inlineBufferStart := some p
  buffers := Function.update cache.buffers p (.next cache.inlineBufferStart)

/-! ### The evaluation stack -/

/-- The stack memory, the inline buffers, and whether `m_currentException` is an object -/
structure Thread (β : Type*) where
  blocks : Int → β
  currentException : Bool
  cache : EventCache

/-- What the calls need of the rest of the runtime: `Promote`, `ChangeDataType` of a reference to
    what it stands for, and the locals as `InitializeLocals` leaves them when it succeeds -/
structure Runtime (β : Type*) where
  promote : β → β
  dereferenced : β → β
  initialLocals : MethodDefInstance → List β
  length_initialLocals : ∀ m, (initialLocals m).length = m.target.numLocals

variable {β : Type*}

def writeBlocks (blocks : Int → β) (start : Int) (values : List β) : Int → β :=
  fun a => if start ≤ a then (values[(a - start).toNat]?).getD (blocks a) else blocks a

def pushValueAndAssign (blocks : Int → β) (frame : Frame) (value : β) : (Int → β) × Frame :=
  (Function.update blocks frame.evalStackPos value,
    { frame with evalStackPos := frame.evalStackPos + 1 })

def pushPromoted (rt : Runtime β) (blocks : Int → β) (frame : Frame) (value : β) :
    (Int → β) × Frame :=
  let (blocks, frame) := pushValueAndAssign blocks frame value
  let dst := frame.evalStackPos - 1
  (Function.update blocks dst (rt.promote (blocks dst)), frame)

/-! ### Inlining -/

/-- The locals of `Execute_IL` that a call changes -/
structure Registers where
  ip : Nat
  assm : Assembly
  evalPos : Int

/-- What `PushInline` tests before it asks for a buffer -/
def refuses (frame : Frame) (regs : Registers) (calleeInst : MethodDefInstance) : Prop :=
  let md := calleeInst.target
  frame.inlineFrame ≠ none ∨
    frame.evalStackEnd - regs.evalPos ≤ md.numArgs + md.numLocals + md.lengthEvalStack + 2 ∨
    frame.nativeMethod ≠ .executeIL ∨
    MD_Constructor ≤ md.flags &&& ~~~MD_HasExceptionHandlers ∨
    md.flags &&& MD_Static ≠ 0 ∨
    calleeInst.nativeCode ≠ none ∨
    md.rva = CLR_EmptyIndex

instance (frame : Frame) (regs : Registers) (calleeInst : MethodDefInstance) :
    Decidable (refuses frame regs calleeInst) := by
  unfold refuses
  infer_instance

/-- The backup that `PushInline` makes -/
def backup (frame : Frame) (regs : Registers) (pThis : Int) : InlineFrame where
  ip := some regs.ip
  ipStart := frame.ipStart
  locals := frame.locals
  args := frame.arguments
  call := frame.call
  evalStack := frame.evalStack
  evalPos := pThis

/-- The frame as `PushInline` leaves it to the callee -/
def Frame.inlined (frame : Frame) (regs : Registers) (calleeInst : MethodDefInstance) (pThis : Int)
    (p : Nat) : Frame :=
  let md := calleeInst.target
  let evalPos := regs.evalPos + 1
  let ip := calleeInst.assm.getByteCode md.rva
  { frame with
    inlineFrame := some p
    arguments := pThis
    locals := frame.evalStackEnd - md.numLocals
    call := calleeInst
    evalStackEnd := frame.evalStackEnd - md.numLocals
    evalStack := evalPos
    evalStackPos := evalPos + 1
    ipStart := some ip
    ip := some ip
    flags :=
      { frame.flags with
        inlined := true
        inlineMethodHasReturnValue :=
          frame.flags.inlineMethodHasReturnValue || decide (md.retVal ≠ .void) } }

def pushInline (rt : Runtime β) (th : Thread β) (frame : Frame) (regs : Registers)
    (calleeInst : MethodDefInstance) (pThis : Int) :
    Option (Bool × Thread β × Frame × Registers) :=
  if refuses frame regs calleeInst then some (false, th, frame, regs)
  else
    match th.cache.getInlineFrameBuffer with
    | none => none
    | some (none, cache) =>
        some (false, { th with cache := cache }, { frame with inlineFrame := none }, regs)
    | some (some p, cache) =>
        let inlined := frame.inlined regs calleeInst pThis p
        let th :=
          { th with
            cache := cache.setFrame p (backup frame regs pThis)
            blocks := writeBlocks th.blocks inlined.locals (rt.initialLocals calleeInst) }
        some (true, th, inlined,
          ⟨calleeInst.assm.getByteCode calleeInst.target.rva, calleeInst.assm, regs.evalPos + 1⟩)

def restoreFromInlineStack (cache : EventCache) (frame : Frame) : Option Frame :=
  match frame.inlineFrame.map cache.buffers with
  | some (.frame f) =>
      some { frame with
        arguments := f.args
        locals := f.locals
        evalStackEnd := frame.evalStackEnd + frame.call.target.numLocals
        call := f.call
        ip := f.ip
        ipStart := f.ipStart
        evalStack := f.evalStack
        evalStackPos := f.evalPos }
  | _ => none

def restoreStack (frame : Frame) (saved : InlineFrame) : Frame :=
  { frame with
    arguments := saved.args
    locals := saved.locals
    call := saved.call
    ip := saved.ip
    ipStart := saved.ipStart
    evalStack := saved.evalStack
    evalStackPos := saved.evalPos
    evalStackEnd := frame.evalStackEnd - saved.call.target.numLocals }

def saveStack (frame : Frame) : InlineFrame where
  args := frame.arguments
  locals := frame.locals
  call := frame.call
  ip := frame.ip
  ipStart := frame.ipStart
  evalPos := frame.evalStackPos
  evalStack := frame.evalStack

def popInline (rt : Runtime β) (th : Thread β) (frame : Frame) : Option (Thread β × Frame) :=
  let src := frame.evalStackPos
  match restoreFromInlineStack th.cache frame, frame.inlineFrame with
  | some frame, some p =>
      let (blocks, frame) :=
        if frame.flags.inlineMethodHasReturnValue && !th.currentException then
          pushPromoted rt th.blocks frame (th.blocks src)
        else (th.blocks, frame)
      some ({ th with blocks := blocks, cache := th.cache.freeInlineBuffer p },
        { frame with
          inlineFrame := none
          flags := { frame.flags with inlined := false, inlineMethodHasReturnValue := false } })
  | _, _ => none

/-! ### Separate frames -/

def writeback (frame : Frame) (regs : Registers) : Frame :=
  { frame with evalStackPos := regs.evalPos + 1, ip := some regs.ip }

/-- `sizeEvalStack` of `Push`, and the heap blocks behind the frame's own fields -/
def frameSizes (md : MethodDef) (extraBlocks : Int) : Nat × Nat :=
  let sizeEvalStack := md.lengthEvalStack + c_OverheadForNewObjOrInteropMethod + 1
  let memorySize := md.numLocals + sizeEvalStack + extraBlocks.toNat
  if memorySize < c_MinimumStack then
    (sizeEvalStack + (c_MinimumStack - memorySize), c_MinimumStack)
  else (sizeEvalStack, memorySize)

/-- `CLR_RT_StackFrame::Push` for a caller that is a frame.  `extension` is `m_extension` of the node
    that the event cache hands out, if it does; the new frame is returned in front of the caller. -/
def push (rt : Runtime β) (th : Thread β) (caller : Frame) (callInst : MethodDefInstance)
    (extraBlocks : Int) (extension : Option Int) : HResultOr (Thread β × Frame × Frame) :=
  let md := callInst.target
  let sizeEvalStack := (frameSizes md extraBlocks).1
  match extension with
  | none => .error .outOfMemory
  | some extension =>
      let evalStack := extension + md.numLocals
      let kind : Except Failure (MethodHandler × Bool × Option Nat × Option Nat) :=
        if md.flags &&& MD_DelegateInvoke ≠ 0 then .ok (.executeDelegateInvoke, false, none, none)
        else
          match callInst.nativeCode with
          | some impl => .ok (.native impl, false, none, none)
          | none =>
              if md.rva = CLR_EmptyIndex then .error .notSupported
              else
                let ipStart := callInst.assm.getByteCode md.rva
                .ok (.executeIL, true, some ipStart, some ipStart)
      match kind with
      | .error code => .error code
      | .ok (nativeMethod, interpreted, ipStart, ip) =>
          let needToSynchronize := decide (md.flags &&& MD_Synchronized ≠ 0)
          let needToSynchronizeGlobally := decide (md.flags &&& MD_GloballySynchronized ≠ 0)
          let compatible := decide (caller.nativeMethod = nativeMethod)
          let arguments :=
            if extraBlocks < 0 then caller.evalStackPos - md.numArgs else evalStack + sizeEvalStack
          let stack : Frame :=
            { nativeMethod := nativeMethod
              flags :=
                { Flags.native with
                  interpreted := interpreted
                  needToSynchronize := needToSynchronize
                  needToSynchronizeGlobally := needToSynchronizeGlobally
                  callerIsCompatibleForCall :=
                    compatible && !(needToSynchronize || needToSynchronizeGlobally)
                  callerIsCompatibleForRet := compatible }
              call := callInst
              arguments := arguments
              locals := extension
              ip := ip
              ipStart := ipStart
              evalStack := evalStack
              evalStackPos := evalStack
              evalStackEnd := evalStack + sizeEvalStack
              inlineFrame := none }
          let caller := if extraBlocks < 0 then { caller with evalStackPos := arguments } else caller
          .ok ({ th with blocks := writeBlocks th.blocks extension (rt.initialLocals callInst) },
            stack, caller)

/-- `CLR_RT_StackFrame::Pop` for a caller that is a frame, which is returned.  Handlers to call on
    `Pop`, locks to give back and application domains are not part of the model. -/
def pop (rt : Runtime β) (th : Thread β) (stack caller : Frame) : Thread β × Frame :=
  if caller.flags.executingConstructor then
    let (blocks, caller) := pushPromoted rt th.blocks caller (th.blocks stack.arguments)
    let dst := caller.evalStackPos - 1
    ({ th with blocks := Function.update blocks dst (rt.dereferenced (blocks dst)) },
      { caller with flags := { caller.flags with executingConstructor := false } })
  else if stack.flags.pseudoStackFrameForFilter then (th, caller)
  else if stack.call.target.retVal ≠ .void ∧ th.currentException = false then
    let (blocks, caller) := pushPromoted rt th.blocks caller (th.blocks (stack.evalStackPos - 1))
    ({ th with blocks := blocks }, caller)
  else (th, caller)

def copyBlocks (blocks : Int → β) (dst src : Int) (n : Nat) : Int → β :=
  writeBlocks blocks dst ((List.range n).map fun i : Nat => blocks (src + i))

def filterPseudoFrameCopyVars (blocks : Int → β) (dst src : Frame) : Int → β :=
  let md := src.call.target
  let blocks := copyBlocks blocks dst.arguments src.arguments md.numArgs
  copyBlocks blocks dst.locals src.locals md.numLocals

/-! ### Running IL -/

/-- What an instruction of the callee does to its frame and to the memory: it stores to an argument, a
    local or through a reference, pushes and pops, empties its stack (`EMPTYSTACK`, `ResetStack`),
    jumps, and changes `m_currentException`.  `search` is the search of `ProcessException_Phase1` for
    a handler, which looks at the frame as its caller left it. -/
inductive Access (β : Type*) where
  | storeArg (i : Nat) (value : β)
  | storeLocal (i : Nat) (value : β)
  | store (a : Int) (value : β)
  | push (value : β)
  | pop
  | empty
  | jump (ip : Nat)
  | setException (pending : Bool)
  | search

/-- The frame during `search`: what `SaveStack` keeps, and the frame as the caller left it -/
def beginSearch (cache : EventCache) (frame : Frame) : Option (InlineFrame × Frame) :=
  (restoreFromInlineStack cache frame).map fun restored => (saveStack frame, restored)

/-- One access; the registers are written back after it. -/
def access (th : Thread β) (frame : Frame) : Access β → Option (Thread β × Frame)
  | .storeArg i value =>
      some ({ th with blocks := Function.update th.blocks (frame.arguments + i) value }, frame)
  | .storeLocal i value =>
      some ({ th with blocks := Function.update th.blocks (frame.locals + i) value }, frame)
  | .store a value => some ({ th with blocks := Function.update th.blocks a value }, frame)
  | .push value =>
      some ({ th with blocks := Function.update th.blocks frame.evalStackPos value },
        { frame with evalStackPos := frame.evalStackPos + 1 })
  | .pop => some (th, { frame with evalStackPos := frame.evalStackPos - 1 })
  | .empty => some (th, { frame with evalStackPos := frame.evalStack })
  | .jump ip => some (th, { frame with ip := some ip })
  | .setException pending => some ({ th with currentException := pending }, frame)
  | .search =>
      match frame.inlineFrame with
      | none => some (th, frame)
      | some _ =>
          (beginSearch th.cache frame).map fun (saved, restored) =>
            (th, restoreStack restored saved)

def runAccesses : Thread β → Frame → List (Access β) → Option (Thread β × Frame)
  | th, frame, [] => some (th, frame)
  | th, frame, a :: accesses =>
      match access th frame a with
      | none => none
      | some (th, frame) => runAccesses th frame accesses

/-- How a callee is left: `CEE_RET`, or unwinding with an exception -/
inductive Exit where
  | ret
  | unwind
deriving DecidableEq, Repr

/-- The end of an inlined callee; `CEE_RET` sets `m_evalStackPos` to `evalPos` before. -/
def leaveInline (rt : Runtime β) (th : Thread β) (frame : Frame) : Exit → Option (Thread β × Frame)
  | .ret => popInline rt th { frame with evalStackPos := frame.evalStackPos - 1 }
  | .unwind => popInline rt th frame

end TinyClr.StackFrame
