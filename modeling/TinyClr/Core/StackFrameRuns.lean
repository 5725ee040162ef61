import TinyClr.Core.StackFrameSpec
import TinyClr.Library.Runs

/-!
# Inlined calls

An inlined call leaves its caller as a call with a frame of its own does, and the inline buffers are
each free or held by one frame, as long as no frame is destroyed while a callee is inlined in it:
`Pop` does not return the buffer.
-/

namespace TinyClr.StackFrame

open TinyClr.Library (run run_invariant Meets meets_snoc meets_cons)

variable {β : Type*} {rt : Runtime β} {th : Thread β} {frame : Frame} {regs : Registers}
  {callee : MethodDefInstance} {extension : Int}

/-! ### One call -/

def OwnSlot (frame : Frame) (a : Int) : Prop :=
  (frame.arguments ≤ a ∧ a < frame.arguments + frame.call.target.numArgs) ∨
  (frame.locals ≤ a ∧ a < frame.locals + frame.call.target.numLocals) ∨
  frame.evalStack ≤ a ∧ a < frame.evalStackPos

def LiveSlot (frame : Frame) (regs : Registers) (callee : MethodDefInstance) (a : Int) : Prop :=
  (frame.arguments ≤ a ∧ a < frame.arguments + frame.call.target.numArgs) ∨
  (frame.locals ≤ a ∧ a < frame.locals + frame.call.target.numLocals) ∨
  frame.evalStack ≤ a ∧ a < firstArg regs callee

/-- A callee that is unwound has thrown, one that returns a value has it on its stack. -/
structure CanLeave (callee : MethodDefInstance) (exit : Exit) (depth : Nat) (th : Thread β) :
    Prop where
  thrown : exit = .unwind → th.currentException = true
  value : returned callee th.currentException = true → 0 < depth

/-- What a call leaves behind, inlined (`th₁`) and with a frame of its own (`th₂`): the same frame of
    the caller, and the same memory but for free slots of the stack and the node of the callee -/
structure CallsAlike (frame : Frame) (regs : Registers) (callee : MethodDefInstance)
    (extension : Int) (frame₁ frame₂ : Frame) (th₁ th₂ : Thread β) : Prop where
  frame_eq : frame₁ = frame₂
  exception : th₁.currentException = th₂.currentException
  blocks : ∀ a, ¬ InNode callee extension a → a < frame₁.evalStackPos ∨ frame₁.evalStackEnd ≤ a →
    th₁.blocks a = th₂.blocks a

/-- The call of a callee that `PushInline` has accepted, with the state `th₀` and the frame `inl` that
    it leaves -/
structure InlinedCall (rt : Runtime β) (th : Thread β) (frame : Frame) (regs : Registers)
    (callee : MethodDefInstance) (extension : Int) (th₀ : Thread β) (inl : Frame)
    (accesses : List (Access β)) (depth : Nat) (exit : Exit) : Prop where
  /-- The slots of the callee lie in its caller's evaluation stack, apart from those in use. -/
  apart : ∀ before after, accesses = before ++ after →
    ∃ th' inl', runAccesses th₀ inl before = some (th', inl') ∧
      ∀ a, OwnSlot inl' a → ¬ LiveSlot frame regs callee a ∧ frame.evalStack ≤ a ∧
        a < frame.evalStackEnd
  /-- The caller afterwards, beside a call with a frame of its own -/
  leaves : ∃ th' inl', runAccesses th₀ inl accesses = some (th', inl') ∧
    (CanLeave callee exit depth th' →
      ∃ th₁, leaveInline rt th' inl' exit =
          some (th₁, afterCall frame regs callee (returned callee th'.currentException)) ∧
        th₁.cache = th.cache ∧
        (∀ a, ¬ Given frame regs callee a → (∀ v, .store a v ∉ accesses) →
          th₁.blocks a = th.blocks a) ∧
        (returned callee th'.currentException = true →
          th₁.blocks (firstArg regs callee) = rt.promote (th'.blocks (inl'.evalStackPos - 1))) ∧
        ∃ th₀S sep caller thS sep' th₂ frame₂,
          push rt th (writeback frame regs) callee (-1) (some extension) =
            .ok (th₀S, sep, caller) ∧
          runAccesses th₀S sep accesses = some (thS, sep') ∧
          pop rt thS sep' caller = (th₂, frame₂) ∧
          CallsAlike frame regs callee extension
            (afterCall frame regs callee (returned callee th'.currentException)) frame₂ th₁ th₂)

variable {d : Nat}

theorem Within.append_inv {md : MethodDef} {f : Nat} {before after : List (Access β)}
    (h : Within md d (before ++ after) f) : ∃ e, Within md d before e ∧ Within md e after f := by
  induction before generalizing d with
  | nil => exact ⟨d, .nil, h⟩
  | cons a before ih =>
    cases h with
    | cons hfirst hrest =>
      obtain ⟨e, hbefore, hafter⟩ := ih hrest
      exact ⟨e, .cons hfirst hbefore, hafter⟩

variable {cache : EventCache} {inl : Frame}

theorem RunsInline.apart {b : Bool} {p : Nat}
    (hcalling : Calling frame regs callee) (hroom : HasRoom frame regs callee)
    (h : RunsInline frame regs callee p cache b d th inl)
    (hd : d ≤ callee.target.lengthEvalStack) {a : Int} (ha : OwnSlot inl a) :
    ¬ LiveSlot frame regs callee a ∧ frame.evalStack ≤ a ∧ a < frame.evalStackEnd := by
  have hbelow := hcalling.locals_below
  have hapart := hcalling.arguments_apart
  have hpushed := hcalling.arguments_pushed
  have hb : b.toNat ≤ 1 := Bool.toNat_le b
  have hcall : inl.call = callee := by
    rw [h.frame_eq]
    rfl
  unfold OwnSlot at ha
  rw [h.arguments_eq, h.locals_eq, h.evalStack_eq, h.evalStackPos_eq, hcall] at ha
  unfold LiveSlot
  unfold firstArg at *
  unfold HasRoom at hroom
  omega

theorem getInlineFrameBuffer_some {cache' : EventCache} {p : Nat}
    (h : cache.getInlineFrameBuffer = some (some p, cache')) :
    cache.inlineBufferStart = some p ∧ cache.buffers p = .next cache'.inlineBufferStart ∧
      cache'.buffers = cache.buffers := by
  unfold EventCache.getInlineFrameBuffer at h
  split at h
  · simp at h
  · rename_i q hstart
    split at h
    · simp at h
    · rename_i pNext hnext
      simp only [Option.some.injEq, Prod.mk.injEq] at h
      obtain ⟨rfl, rfl⟩ := h
      exact ⟨hstart, hnext, rfl⟩

theorem pushInline_true {pThis : Int} {th₀ : Thread β} {regs₀ : Registers}
    (h : pushInline rt th frame regs callee pThis = some (true, th₀, inl, regs₀)) :
    ¬ refuses frame regs callee ∧
      ∃ p cache, th.cache.getInlineFrameBuffer = some (some p, cache) := by
  unfold pushInline at h
  split at h
  · simp at h
  · rename_i haccepts
    refine ⟨haccepts, ?_⟩
    split at h
    · simp at h
    · simp at h
    · rename_i p cache hbuffer
      exact ⟨p, cache, hbuffer⟩

theorem free_setFrame {cache' : EventCache} {p : Nat} (f : InlineFrame)
    (h : cache.getInlineFrameBuffer = some (some p, cache')) :
    (cache'.setFrame p f).freeInlineBuffer p = cache := by
  obtain ⟨hstart, hnext, hbuffers⟩ := getInlineFrameBuffer_some h
  unfold EventCache.freeInlineBuffer EventCache.setFrame
  simp only [Function.update_idem, hbuffers]
  rw [← hnext, Function.update_eq_self, ← hstart]

variable {blocks : Int → β}

theorem afterBlocks_other {pushed : Bool} {value : β} {a : Int}
    (h : pushed = true → a ≠ firstArg regs callee) :
    afterBlocks rt regs callee pushed blocks value a = blocks a := by
  unfold afterBlocks
  split_ifs with hpushed
  · exact Function.update_of_ne (h hpushed) _ _
  · rfl

theorem afterBlocks_first {value : β} :
    afterBlocks rt regs callee true blocks value (firstArg regs callee) = rt.promote value := by
  simp [afterBlocks]

theorem RunsBeside.ends {b : Bool} {d p : Nat} {cache : EventCache} {thS : Thread β}
    {inl sep₀ sep : Frame} {exit : Exit} (hsep : Separate callee regs extension sep₀)
    (hinline : RunsInline frame regs callee p cache b d th inl)
    (h : RunsBeside frame regs callee extension sep₀ b d th inl thS sep)
    (hleave : CanLeave callee exit d th) {a : Int} (hnode : ¬ InNode callee extension a)
    (ha : a < (afterCall frame regs callee (returned callee th.currentException)).evalStackPos ∨
      (afterCall frame regs callee (returned callee th.currentException)).evalStackEnd ≤ a) :
    afterBlocks rt regs callee (returned callee th.currentException) th.blocks
        (th.blocks (inl.evalStackPos - 1)) a =
      afterBlocks rt regs callee (returned callee th.currentException) thS.blocks
        (thS.blocks (sep.evalStackPos - 1)) a := by
  have hend : (afterCall frame regs callee
      (returned callee th.currentException)).evalStackEnd = frame.evalStackEnd := rfl
  have hpos : (afterCall frame regs callee (returned callee th.currentException)).evalStackPos =
      firstArg regs callee + (returned callee th.currentException).toNat := rfl
  rw [hend, hpos] at ha
  by_cases hreturn : returned callee th.currentException = true ∧ a = firstArg regs callee
  · -- the value that is returned
    obtain ⟨hreturned, rfl⟩ := hreturn
    have hd := hleave.value hreturned
    have hentry := h.agrees _ _ (.entry (Nat.sub_lt hd Nat.one_pos))
    have hsepPos : sep.evalStackPos = extension + callee.target.numLocals + d := by
      rw [h.frame_eq, ← hsep.evalStack]
    have htop : inl.evalStackPos - 1 = regs.evalPos + 1 + b.toNat + (d - 1 : Nat) := by
      rw [hinline.evalStackPos_eq]
      omega
    have htopS : sep.evalStackPos - 1 = extension + callee.target.numLocals + (d - 1 : Nat) := by
      rw [hsepPos]
      omega
    rw [hreturned, afterBlocks_first, afterBlocks_first, htop, htopS, hentry]
  · have hother : returned callee th.currentException = true → a ≠ firstArg regs callee :=
      fun hreturned heq => hreturn ⟨hreturned, heq⟩
    have hborrowed : ¬ Borrowed frame regs a := by
      unfold Borrowed
      cases hreturned : returned callee th.currentException with
      | true =>
        have hne := hother hreturned
        rw [hreturned] at ha
        unfold firstArg at ha hne
        simp only [Bool.toNat_true] at ha
        omega
      | false =>
        rw [hreturned] at ha
        unfold firstArg at ha
        simp only [Bool.toNat_false] at ha
        omega
    rw [afterBlocks_other hother, afterBlocks_other hother]
    exact h.agrees a a (.shared hborrowed hnode)

theorem pushInline_call {th₀ : Thread β} {regs₀ : Registers}
    (hcalling : Calling frame regs callee)
    (hpush : pushInline rt th frame regs callee (firstArg regs callee) =
      some (true, th₀, inl, regs₀))
    (hfresh : Fresh frame callee extension) {accesses : List (Access β)} {depth : Nat} (exit : Exit)
    (hwithin : Within callee.target 0 accesses depth)
    (helsewhere : ∀ a ∈ accesses, Elsewhere frame regs callee extension a) :
    InlinedCall rt th frame regs callee extension th₀ inl accesses depth exit := by
  obtain ⟨haccepts, p, cache, hbuffer⟩ := pushInline_true hpush
  have hroom := hasRoom_of_accepted haccepts
  have hnone : frame.inlineFrame = none := by
    unfold refuses at haccepts
    simp only [not_or, not_not] at haccepts
    exact haccepts.1
  rw [pushInline_eq haccepts hbuffer] at hpush
  simp only [Option.some.injEq, Prod.mk.injEq, true_and] at hpush
  obtain ⟨rfl, rfl, -⟩ := hpush
  have hsep := separateFrame_spec regs callee extension
  have hinline := @runsInline_start _ th frame regs callee p cache (writeBlocks th.blocks
    (frame.evalStackEnd - callee.target.numLocals) (rt.initialLocals callee))
  have hbeside : RunsBeside frame regs callee extension (separateFrame regs callee extension) true 0
      { th with
        cache := cache.setFrame p (backup frame regs (firstArg regs callee))
        blocks := writeBlocks th.blocks (frame.evalStackEnd - callee.target.numLocals)
          (rt.initialLocals callee) }
      (frame.inlined regs callee (firstArg regs callee) p)
      { th with blocks := writeBlocks th.blocks extension (rt.initialLocals callee) }
      (separateFrame regs callee extension) :=
    { frame_eq := by simp [separateFrame, Frame.inlined]
      exception := rfl
      agrees := agrees_start hroom th.blocks }
  constructor
  · rintro before after rfl
    obtain ⟨e, hbefore, -⟩ := hwithin.append_inv
    obtain ⟨th', inl', -, -, c, hrun, -, he, hinline', -, -⟩ :=
      run_simulated hroom hfresh hcalling hsep hbefore hinline hbeside (Nat.zero_le _)
        fun a ha => helsewhere a (List.mem_append_left _ ha)
    exact ⟨th', inl', hrun, fun a ha => hinline'.apart hcalling hroom he ha⟩
  · obtain ⟨th', inl', thS, sep', c, hrun, hrunS, he, hinline', hbeside', hkept⟩ :=
      run_simulated hroom hfresh hcalling hsep hwithin hinline hbeside (Nat.zero_le _) helsewhere
    refine ⟨th', inl', hrun, fun hleave => ?_⟩
    refine ⟨_, leaveInline_eq hcalling hnone hinline' hleave.thrown, free_setFrame _ hbuffer, ?_, ?_,
      ?_⟩
    · intro a ha hstore
      have hlength := rt.length_initialLocals callee
      have hfirst : a ≠ firstArg regs callee := by
        rintro rfl
        unfold Given firstArg at ha
        unfold HasRoom at hroom
        omega
      have hstart : writeBlocks th.blocks (frame.evalStackEnd - callee.target.numLocals)
          (rt.initialLocals callee) a = th.blocks a := by
        refine writeBlocks_outside ?_
        unfold Given firstArg at ha
        unfold HasRoom at hroom
        omega
      exact (afterBlocks_other fun _ => hfirst).trans ((hkept a ha hstore).trans hstart)
    · intro hreturned
      dsimp only
      rw [hreturned, afterBlocks_first]
    · refine ⟨_, _, _, thS, sep', _, _, push_eq haccepts, hrunS, pop_eq hcalling hsep hbeside', rfl,
        hbeside'.exception.symm, fun a hnode ha => ?_⟩
      exact hbeside'.ends hsep hinline' hleave hnode ha

/-! ### The inline buffers -/

/-- The frames of all threads, and the memory and the buffers that they share -/
structure System (β : Type*) where
  th : Thread β
  frames : Nat → Option Frame

def System.inlineFrame (s : System β) (k : Nat) : Option Nat := (s.frames k).bind Frame.inlineFrame

def System.setFrame (s : System β) (th : Thread β) (k : Nat) (f : Option Frame) : System β :=
  ⟨th, Function.update s.frames k f⟩

/-- What happens to the frames: a method is called, with a frame of its own (`k`, the node that the
    event cache hands out) or, where `PushInline` accepts it, inlined; a frame runs IL or leaves what
    is inlined in it; the end of a filter copies the variables of its pseudo frame `k`; `Pop` destroys
    a frame, also at the end of a filter (`ProcessException_Phase2`, `ProcessException_EndFilter`) and
    of a subthread (`CLR_RT_SubThread::DestroyInstance`).  The first frame of a thread has no caller. -/
inductive Op (β : Type*) where
  | push (k caller : Nat) (callInst : MethodDefInstance) (extraBlocks : Int)
      (extension : Option Int)
  | call (k : Nat) (regs : Registers) (callee : MethodDefInstance) (pThis : Int)
  | access (k : Nat) (a : Access β)
  | leave (k : Nat) (exit : Exit)
  | copyVars (dst k : Nat)
  | pop (k : Nat) (caller : Option Nat)

/-- What one frame does, if there is such a frame -/
def System.within (s : System β) (k : Nat) (f : Frame → Option (Thread β × Frame)) :
    Option (System β × Unit) :=
  match s.frames k with
  | none => some (s, ())
  | some frame =>
      (f frame).map fun (th, frame) => (s.setFrame th k (some frame), ())

def step (rt : Runtime β) (s : System β) : Op β → Option (System β × Unit)
  | .push k caller callInst extraBlocks extension =>
      match s.frames k, s.frames caller with
      | none, some frame =>
          match push rt s.th frame callInst extraBlocks extension with
          | .error _ => some (s, ())
          | .ok (th, stack, frame) =>
              some ((s.setFrame th caller (some frame)).setFrame th k (some stack), ())
      | _, _ => some (s, ())
  | .call k regs callee pThis =>
      s.within k fun frame =>
        (pushInline rt s.th frame regs callee pThis).map fun (_, th, frame, _) => (th, frame)
  | .access k a => s.within k fun frame => access s.th frame a
  | .leave k exit =>
      s.within k fun frame =>
        match frame.inlineFrame with
        | none => some (s.th, frame)
        | some _ => leaveInline rt s.th frame exit
  | .copyVars dst k =>
      match s.frames dst, s.frames k with
      | some dst, some src =>
          some (⟨{ s.th with blocks := filterPseudoFrameCopyVars s.th.blocks dst src }, s.frames⟩, ())
      | _, _ => some (s, ())
  | .pop k none => some (s.setFrame s.th k none, ())
  | .pop k (some caller) =>
      match s.frames k, s.frames caller with
      | some stack, some frame =>
          let (th, frame) := pop rt s.th stack frame
          some ((s.setFrame th caller (some frame)).setFrame th k none, ())
      | _, _ => some (s, ())

inductive Chain (buffers : Nat → InlineBuffer) : Option Nat → List Nat → Prop
  | nil : Chain buffers none []
  | cons {p : Nat} {pNext : Option Nat} {free : List Nat} :
      buffers p = .next pNext → Chain buffers pNext free → Chain buffers (some p) (p :: free)

theorem Chain.congr {buffers buffers' : Nat → InlineBuffer} {start : Option Nat} {free : List Nat}
    (h : Chain buffers start free) (hsame : ∀ q ∈ free, buffers' q = buffers q) :
    Chain buffers' start free := by
  induction h with
  | nil => exact .nil
  | cons hnext _ ih =>
    refine .cons ?_ (ih fun q hq => hsame q (List.mem_cons_of_mem _ hq))
    rw [hsame _ (List.mem_cons_self ..), hnext]

theorem Chain.unique {buffers : Nat → InlineBuffer} {start : Option Nat} {free free' : List Nat}
    (h : Chain buffers start free) (h' : Chain buffers start free') : free = free' := by
  induction h generalizing free' with
  | nil =>
    cases h'
    rfl
  | cons hnext _ ih =>
    cases h' with
    | cons hnext' hrest' =>
      obtain rfl := InlineBuffer.next.inj (hnext.symm.trans hnext')
      rw [ih hrest']

/-- Every one of `count` buffers is either linked, once, or held by one frame, whose backup it is. -/
structure Pool (count : Nat) (s : System β) (free : List Nat) : Prop where
  chain : Chain s.th.cache.buffers s.th.cache.inlineBufferStart free
  nodup : free.Nodup
  lt_count : ∀ q ∈ free, q < count
  held : ∀ k q, s.inlineFrame k = some q →
    q < count ∧ q ∉ free ∧ ∃ f, s.th.cache.buffers q = .frame f
  unique : ∀ k k' q, s.inlineFrame k = some q → s.inlineFrame k' = some q → k = k'
  all : ∀ q < count, q ∈ free ∨ ∃ k, s.inlineFrame k = some q

theorem chain_ofCount {count : Nat} : ∀ n i, i + n = count → 0 < n →
    Chain (EventCache.ofCount count).buffers (some i) (List.range' i n) := by
  intro n
  induction n with
  | zero => intro i _ h; exact absurd h (Nat.lt_irrefl 0)
  | succ n ih =>
    intro i hcount _
    rcases Nat.eq_zero_or_pos n with rfl | hpos
    · refine .cons ?_ .nil
      simp only [EventCache.ofCount]
      rw [if_neg (by omega)]
    · refine .cons ?_ (ih (i + 1) (by omega) hpos)
      simp only [EventCache.ofCount]
      rw [if_pos (by omega)]

theorem pool_ofCount {count : Nat} (hcount : 0 < count) {s : System β}
    (hcache : s.th.cache = EventCache.ofCount count) (hframes : ∀ k, s.inlineFrame k = none) :
    Pool count s (List.range' 0 count) where
  chain := by
    rw [hcache]
    exact chain_ofCount count 0 (Nat.zero_add count) hcount
  nodup := List.nodup_range'
  lt_count := fun q hq => by
    have := (List.mem_range'_1.mp hq).2
    omega
  held := fun k q h => by simp [hframes k] at h
  unique := fun k k' q h => by simp [hframes k] at h
  all := fun q hq => Or.inl (List.mem_range'_1.mpr ⟨Nat.zero_le q, by omega⟩)

section Pool

variable {count k p : Nat} {s s' : System β} {free : List Nat}

theorem setFrame_inlineFrame {th' : Thread β} {k' : Nat} {f : Option Frame} :
    (s.setFrame th' k f).inlineFrame k' =
      if k' = k then f.bind Frame.inlineFrame else s.inlineFrame k' := by
  unfold System.inlineFrame System.setFrame
  by_cases h : k' = k
  · subst h
    simp
  · simp only [if_neg h, Function.update_of_ne h]

theorem setFrame_kept {th' : Thread β} {f : Option Frame}
    (hf : f.bind Frame.inlineFrame = s.inlineFrame k) (k' : Nat) :
    (s.setFrame th' k f).inlineFrame k' = s.inlineFrame k' := by
  rw [setFrame_inlineFrame, hf]
  split_ifs with hk
  · rw [hk]
  · rfl

theorem Pool.keep (h : Pool count s free) (hcache : s'.th.cache = s.th.cache)
    (hsame : ∀ k, s'.inlineFrame k = s.inlineFrame k) : Pool count s' free := by
  constructor
  · rw [hcache]
    exact h.chain
  · exact h.nodup
  · exact h.lt_count
  · intro k q hq
    rw [hsame] at hq
    rw [hcache]
    exact h.held k q hq
  · intro k k' q hq hq'
    rw [hsame] at hq hq'
    exact h.unique k k' q hq hq'
  · intro q hq
    simp only [hsame]
    exact h.all q hq

theorem Pool.take {saved : InlineFrame} (h : Pool count s free)
    (hnone : s.inlineFrame k = none)
    (hbuffer : s.th.cache.getInlineFrameBuffer = some (some p, cache))
    (hcache : s'.th.cache = cache.setFrame p saved)
    (hafter : ∀ k', s'.inlineFrame k' = if k' = k then some p else s.inlineFrame k') :
    ∃ free', Pool count s' free' := by
  obtain ⟨hstart, hnext, hbuffers⟩ := getInlineFrameBuffer_some hbuffer
  have hchain := h.chain
  rw [hstart] at hchain
  cases hchain with
  | @cons _ pNext free hat hrest =>
    obtain ⟨hp, hnodup⟩ := List.nodup_cons.mp h.nodup
    have hrest' : pNext = cache.inlineBufferStart := by
      rw [hnext] at hat
      exact (InlineBuffer.next.inj hat).symm
    subst hrest'
    have hother : ∀ q, q ≠ p → s'.th.cache.buffers q = s.th.cache.buffers q := by
      intro q hq
      rw [hcache, EventCache.setFrame]
      simp only [Function.update_of_ne hq, hbuffers]
    refine ⟨free, ?_, hnodup, fun q hq => h.lt_count q (List.mem_cons_of_mem p hq), ?_, ?_, ?_⟩
    · have hstart' : s'.th.cache.inlineBufferStart = cache.inlineBufferStart := by
        rw [hcache]
        rfl
      rw [hstart']
      exact hrest.congr fun q hq => hother q fun heq => hp (heq ▸ hq)
    · intro k' q hq
      rw [hafter] at hq
      split_ifs at hq with hk
      · obtain rfl : p = q := Option.some.inj hq
        refine ⟨h.lt_count p (List.mem_cons_self ..), hp, saved, ?_⟩
        rw [hcache, EventCache.setFrame]
        exact Function.update_self ..
      · obtain ⟨hlt, hfree, g, hg⟩ := h.held k' q hq
        have hne : q ≠ p := fun heq => hfree (heq ▸ List.mem_cons_self ..)
        exact ⟨hlt, fun hmem => hfree (List.mem_cons_of_mem p hmem), g, (hother q hne).trans hg⟩
    · intro k' k'' q hq hq'
      rw [hafter] at hq hq'
      have hnot : ∀ j, s.inlineFrame j ≠ some p := fun j hj =>
        (h.held j p hj).2.1 (List.mem_cons_self ..)
      split_ifs at hq hq' with hk hk' hk'
      · exact hk.trans hk'.symm
      · exact absurd (hq'.trans hq.symm) (hnot k'')
      · exact absurd (hq.trans hq'.symm) (hnot k')
      · exact h.unique k' k'' q hq hq'
    · intro q hq
      rcases h.all q hq with hmem | ⟨j, hj⟩
      · rcases List.mem_cons.mp hmem with rfl | hmem
        · exact Or.inr ⟨k, by rw [hafter, if_pos rfl]⟩
        · exact Or.inl hmem
      · refine Or.inr ⟨j, ?_⟩
        rw [hafter, if_neg (fun heq => ?_), hj]
        rw [heq, hnone] at hj
        cases hj

theorem Pool.give (h : Pool count s free) (hheld : s.inlineFrame k = some p)
    (hcache : s'.th.cache = s.th.cache.freeInlineBuffer p)
    (hafter : ∀ k', s'.inlineFrame k' = if k' = k then none else s.inlineFrame k') :
    ∃ free', Pool count s' free' := by
  obtain ⟨hlt, hp, -⟩ := h.held k p hheld
  have hother : ∀ q, q ≠ p → s'.th.cache.buffers q = s.th.cache.buffers q := by
    intro q hq
    rw [hcache, EventCache.freeInlineBuffer]
    exact Function.update_of_ne hq _ _
  refine ⟨p :: free, ?_, List.nodup_cons.mpr ⟨hp, h.nodup⟩, ?_, ?_, ?_, ?_⟩
  · have hstart : s'.th.cache.inlineBufferStart = some p := by rw [hcache]; rfl
    have hat : s'.th.cache.buffers p = .next s.th.cache.inlineBufferStart := by
      rw [hcache, EventCache.freeInlineBuffer]
      exact Function.update_self ..
    rw [hstart]
    exact .cons hat (h.chain.congr fun q hq => hother q fun heq => hp (heq ▸ hq))
  · intro q hq
    rcases List.mem_cons.mp hq with rfl | hq
    · exact hlt
    · exact h.lt_count q hq
  · intro k' q hq
    rw [hafter] at hq
    split_ifs at hq with hk
    obtain ⟨hlt', hfree, g, hg⟩ := h.held k' q hq
    have hne : q ≠ p := fun heq => hk (h.unique k' k p (heq ▸ hq) hheld)
    refine ⟨hlt', fun hmem => ?_, g, (hother q hne).trans hg⟩
    rcases List.mem_cons.mp hmem with heq | hmem
    · exact hne heq
    · exact hfree hmem
  · intro k' k'' q hq hq'
    rw [hafter] at hq hq'
    split_ifs at hq hq' with hk hk'
    exact h.unique k' k'' q hq hq'
  · intro q hq
    rcases h.all q hq with hmem | ⟨j, hj⟩
    · exact Or.inl (List.mem_cons_of_mem p hmem)
    · by_cases hjk : j = k
      · subst hjk
        obtain rfl := Option.some.inj (hheld.symm.trans hj)
        exact Or.inl (List.mem_cons_self ..)
      · exact Or.inr ⟨j, by rw [hafter, if_neg hjk, hj]⟩

/-- A frame that is destroyed while a callee is inlined in it takes its buffer with it. -/
theorem Pool.leak (h : Pool count s free) (hheld : s.inlineFrame k = some p)
    (hcache : s'.th.cache = s.th.cache)
    (hafter : ∀ k', s'.inlineFrame k' = if k' = k then none else s.inlineFrame k')
    (free' : List Nat) : ¬ Pool count s' free' := by
  intro h'
  obtain ⟨hlt, hp, -⟩ := h.held k p hheld
  have hchain := h'.chain
  rw [hcache] at hchain
  rcases h'.all p hlt with hmem | ⟨j, hj⟩
  · exact hp (h.chain.unique hchain ▸ hmem)
  · rw [hafter] at hj
    split_ifs at hj with hjk
    exact hjk (h.unique j k p hj hheld)

end Pool

def Backed (cache : EventCache) (frame : Frame) : Prop :=
  ∀ p, frame.inlineFrame = some p → ∃ f, cache.buffers p = .frame f

theorem restoreFromInlineStack_some {p : Nat} (hinline : frame.inlineFrame = some p)
    (h : Backed th.cache frame) :
    ∃ restored, restoreFromInlineStack th.cache frame = some restored ∧
      restored.inlineFrame = some p := by
  obtain ⟨f, hf⟩ := h p hinline
  unfold restoreFromInlineStack
  rw [hinline, Option.map_some, hf]
  exact ⟨_, rfl, rfl⟩

theorem access_keeps (h : Backed th.cache frame) (a : Access β) :
    ∃ th' frame', access th frame a = some (th', frame') ∧ th'.cache = th.cache ∧
      frame'.inlineFrame = frame.inlineFrame := by
  cases a with
  | storeArg i v | storeLocal i v | store x v | push v => exact ⟨_, _, rfl, rfl, rfl⟩
  | pop | empty | jump ip | setException pending => exact ⟨_, _, rfl, rfl, rfl⟩
  | search =>
    cases hinline : frame.inlineFrame with
    | none => exact ⟨th, frame, by rw [access, hinline], rfl, hinline⟩
    | some p =>
      obtain ⟨restored, hrestored, hkept⟩ := restoreFromInlineStack_some hinline h
      refine ⟨th, restoreStack restored (saveStack frame), ?_, rfl, hkept⟩
      rw [access, hinline]
      simp [beginSearch, hrestored]

theorem popInline_gives {p : Nat} (hinline : frame.inlineFrame = some p)
    (h : Backed th.cache frame) :
    ∃ th' frame', popInline rt th frame = some (th', frame') ∧
      th'.cache = th.cache.freeInlineBuffer p ∧ frame'.inlineFrame = none := by
  obtain ⟨restored, hrestored, -⟩ := restoreFromInlineStack_some hinline h
  exact ⟨_, _, by rw [popInline, hrestored, hinline], rfl, rfl⟩

theorem leaveInline_gives {p : Nat} (hinline : frame.inlineFrame = some p)
    (h : Backed th.cache frame) (exit : Exit) :
    ∃ th' frame', leaveInline rt th frame exit = some (th', frame') ∧
      th'.cache = th.cache.freeInlineBuffer p ∧ frame'.inlineFrame = none := by
  cases exit with
  | ret =>
    exact @popInline_gives _ rt th { frame with evalStackPos := frame.evalStackPos - 1 } p hinline h
  | unwind => exact popInline_gives hinline h

/-! ### Steps -/

section Step

variable {count k : Nat} {s : System β} {free : List Nat}

theorem inlineFrame_eq (hframe : s.frames k = some frame) : s.inlineFrame k = frame.inlineFrame := by
  rw [System.inlineFrame, hframe]
  rfl

theorem Pool.update (h : Pool count s free) {th' : Thread β} {f : Option Frame}
    (hcache : th'.cache = s.th.cache) (hf : f.bind Frame.inlineFrame = s.inlineFrame k) :
    Pool count (s.setFrame th' k f) free :=
  h.keep hcache (setFrame_kept hf)

theorem within_pool {f : Frame → Option (Thread β × Frame)} (h : Pool count s free)
    (hf : ∀ frame, s.frames k = some frame → ∃ th' frame', f frame = some (th', frame') ∧
      ∃ free', Pool count (s.setFrame th' k (some frame')) free') :
    ∃ s', s.within k f = some (s', ()) ∧ ∃ free', Pool count s' free' := by
  unfold System.within
  cases hframe : s.frames k with
  | none => exact ⟨s, rfl, free, h⟩
  | some frame =>
    obtain ⟨th', frame', hstep, hpool⟩ := hf frame hframe
    refine ⟨_, ?_, hpool⟩
    simp only [hstep, Option.map_some]

theorem push_keeps {extraBlocks : Int} {node : Option Int} {th' : Thread β}
    {stack caller caller' : Frame}
    (h : push rt th caller callee extraBlocks node = .ok (th', stack, caller')) :
    th'.cache = th.cache ∧ stack.inlineFrame = none ∧ caller'.inlineFrame = caller.inlineFrame := by
  unfold push at h
  dsimp only at h
  split at h
  · cases h
  · split at h
    · cases h
    · obtain ⟨rfl, rfl, rfl⟩ := Except.ok.inj h
      refine ⟨rfl, rfl, ?_⟩
      split_ifs <;> rfl

theorem pop_keeps (stack caller : Frame) : (pop rt th stack caller).1.cache = th.cache ∧
    (pop rt th stack caller).2.inlineFrame = caller.inlineFrame := by
  unfold pop
  split_ifs <;> exact ⟨rfl, rfl⟩

theorem call_pool (h : Pool count s free) (callee : MethodDefInstance) {regs : Registers}
    {pThis : Int} (hframe : s.frames k = some frame) :
    ∃ accepted th' frame' regs',
      pushInline rt s.th frame regs callee pThis = some (accepted, th', frame', regs') ∧
      ∃ free', Pool count (s.setFrame th' k (some frame')) free' := by
  have hinline := inlineFrame_eq hframe
  by_cases hrefuses : refuses frame regs callee
  · exact ⟨_, _, _, _, by rw [pushInline, if_pos hrefuses], free, h.update rfl hinline.symm⟩
  · have hnone : frame.inlineFrame = none := by
      unfold refuses at hrefuses
      simp only [not_or, not_not] at hrefuses
      exact hrefuses.1
    rw [hnone] at hinline
    cases hstart : s.th.cache.inlineBufferStart with
    | none =>
      have hbuffer : s.th.cache.getInlineFrameBuffer = some (none, s.th.cache) := by
        rw [EventCache.getInlineFrameBuffer, hstart]
      refine ⟨_, _, _, _, by rw [pushInline, if_neg hrefuses, hbuffer], free, h.update rfl ?_⟩
      rw [hinline]
      rfl
    | some p =>
      have hchain := h.chain
      rw [hstart] at hchain
      cases hchain with
      | @cons _ pNext _ hnext _ =>
        have hbuffer : s.th.cache.getInlineFrameBuffer =
            some (some p, { s.th.cache with inlineBufferStart := pNext }) := by
          simp only [EventCache.getInlineFrameBuffer, hstart, hnext]
        exact ⟨_, _, _, _, by rw [pushInline, if_neg hrefuses, hbuffer],
          h.take hinline hbuffer rfl fun k' => setFrame_inlineFrame⟩

/-- What destroys a frame destroys nothing that is inlined, and a filter's variables are copied from
    and to frames as their methods left them. -/
def Op.Safe (s : System β) : Op β → Prop
  | .pop k _ => s.inlineFrame k = none
  | .copyVars dst k => s.inlineFrame dst = none ∧ s.inlineFrame k = none
  | _ => True

theorem step_pool (h : Pool count s free) (op : Op β) (hsafe : op.Safe s) :
    ∃ s', step rt s op = some (s', ()) ∧ ∃ free', Pool count s' free' := by
  have hbacked : ∀ {k frame}, s.frames k = some frame → Backed s.th.cache frame := by
    intro k frame hframe p hp
    refine (h.held k p ?_).2.2
    rw [System.inlineFrame, hframe]
    exact hp
  cases op with
  | push k caller callInst extraBlocks extension =>
    rw [step]
    split
    · rename_i frame hfree hcaller
      split
      · exact ⟨s, rfl, free, h⟩
      · rename_i th stack frame' hpush
        obtain ⟨hcache, hstack, hframe'⟩ := push_keeps hpush
        have hne : k ≠ caller := fun heq => by simp [← heq, hfree] at hcaller
        have hnew : s.inlineFrame k = none := by rw [System.inlineFrame, hfree]; rfl
        have hupdated : Pool count (s.setFrame th caller (some frame')) free :=
          h.update hcache (hframe'.trans (inlineFrame_eq hcaller).symm)
        refine ⟨_, rfl, free, hupdated.update rfl ?_⟩
        rw [setFrame_inlineFrame, if_neg hne, hnew]
        exact hstack
    · exact ⟨s, rfl, free, h⟩
  | call k regs callee pThis =>
    refine within_pool h fun frame hframe => ?_
    obtain ⟨accepted, th', frame', regs', hpush, hpool⟩ := call_pool h callee hframe
    exact ⟨th', frame', by rw [hpush]; rfl, hpool⟩
  | access k a =>
    refine within_pool h fun frame hframe => ?_
    obtain ⟨th', frame', haccess, hcache, hinline⟩ := access_keeps (hbacked hframe) a
    exact ⟨th', frame', haccess, free, h.update hcache (hinline.trans (inlineFrame_eq hframe).symm)⟩
  | leave k exit =>
    refine within_pool h fun frame hframe => ?_
    have hheld := inlineFrame_eq hframe
    cases hinline : frame.inlineFrame with
    | none => exact ⟨s.th, frame, rfl, free, h.update rfl hheld.symm⟩
    | some p =>
      obtain ⟨th', frame', hleave, hcache, hgone⟩ :=
        @leaveInline_gives _ rt _ _ _ hinline (hbacked hframe) exit
      refine ⟨th', frame', hleave, h.give (hheld.trans hinline) hcache fun k' => ?_⟩
      rw [setFrame_inlineFrame, Option.bind_some, hgone]
  | copyVars dst k =>
    rw [step]
    split
    · exact ⟨_, rfl, free, h.keep rfl fun _ => rfl⟩
    · exact ⟨s, rfl, free, h⟩
  | pop k caller =>
    cases caller with
    | none => exact ⟨_, rfl, free, h.update rfl hsafe.symm⟩
    | some caller =>
      rw [step]
      split
      · rename_i stack frame hstack hcaller
        obtain ⟨hcache, hframe'⟩ := @pop_keeps _ rt s.th stack frame
        have hheld := hframe'.trans (inlineFrame_eq hcaller).symm
        have hupdated := h.update hcache (f := some (pop rt s.th stack frame).2) hheld
        refine ⟨_, rfl, free, hupdated.update rfl ?_⟩
        rw [setFrame_kept (f := some (pop rt s.th stack frame).2) hheld]
        exact hsafe.symm
      · exact ⟨s, rfl, free, h⟩

/-- The variables of a frame: those of its own method, whatever is inlined in it -/
def ownFrame (cache : EventCache) (frame : Frame) : Frame :=
  (restoreFromInlineStack cache frame).getD frame

/-- The end of a filter writes the variables of the method that has the handler. -/
def Writes (s s' : System β) : Op β → Prop
  | .copyVars dst k => ∀ handler stack, s.frames dst = some handler → s.frames k = some stack →
      ∀ a, ¬ (let own := ownFrame s.th.cache handler
          let md := (ownFrame s.th.cache stack).call.target
          (own.arguments ≤ a ∧ a < own.arguments + md.numArgs) ∨
            own.locals ≤ a ∧ a < own.locals + md.numLocals) →
        s'.th.blocks a = s.th.blocks a
  | _ => True

theorem copyBlocks_outside {dst src a : Int} {n : Nat}
    (h : ¬ (dst ≤ a ∧ a < dst + n)) : copyBlocks blocks dst src n a = blocks a := by
  refine writeBlocks_outside ?_
  rw [List.length_map, List.length_range]
  omega

theorem ownFrame_eq (h : frame.inlineFrame = none) :
    ownFrame cache frame = frame := by
  rw [ownFrame, restoreFromInlineStack, h]
  rfl

theorem step_writes {op : Op β} {s' : System β} (hsafe : op.Safe s)
    (hstep : step rt s op = some (s', ())) : Writes s s' op := by
  cases op with
  | copyVars dst k =>
    intro handler stack hdst hk a ha
    rw [step, hdst, hk] at hstep
    obtain ⟨rfl, -⟩ := Prod.mk.inj (Option.some.inj hstep)
    have hhandler := (inlineFrame_eq hdst).symm.trans hsafe.1
    have hstack := (inlineFrame_eq hk).symm.trans hsafe.2
    rw [ownFrame_eq hhandler, ownFrame_eq hstack] at ha
    obtain ⟨hargs, hlocals⟩ := not_or.mp ha
    exact (copyBlocks_outside hlocals).trans (copyBlocks_outside hargs)
  | _ => trivial

theorem pop_leaks {p : Nat} {caller : Option Nat} {s' : System β} (h : Pool count s free)
    (hheld : s.inlineFrame k = some p) (hstep : step rt s (.pop k caller) = some (s', ()))
    (hgone : s'.frames k = none) (free' : List Nat) : ¬ Pool count s' free' := by
  cases caller with
  | none =>
    obtain ⟨rfl, -⟩ := Prod.mk.inj (Option.some.inj hstep)
    refine h.leak hheld ?_ (fun k' => ?_) free'
    · rfl
    · exact setFrame_inlineFrame
  | some caller =>
    obtain ⟨stack, hstack, -⟩ := Option.bind_eq_some_iff.mp hheld
    cases hcaller : s.frames caller with
    | none =>
      rw [step, hstack, hcaller] at hstep
      obtain ⟨rfl, -⟩ := Prod.mk.inj (Option.some.inj hstep)
      rw [hstack] at hgone
      cases hgone
    | some frame =>
      simp only [step, hstack, hcaller, Option.some.injEq, Prod.mk.injEq, and_true] at hstep
      rw [← hstep]
      obtain ⟨hcache, hframe'⟩ := @pop_keeps _ rt s.th stack frame
      have hkept := @setFrame_kept _ caller s (pop rt s.th stack frame).1
        (some (pop rt s.th stack frame).2) (hframe'.trans (inlineFrame_eq hcaller).symm)
      refine h.leak hheld hcache (fun k' => ?_) free'
      rw [setFrame_inlineFrame, hkept]
      rfl

end Step

/-- **Inlined calls.**  However a callee that `PushInline` accepts runs, its slots lie apart from
    those in use, and its caller is left as by a call with a frame of its own; in every run whose steps
    are safe, each inline buffer is either linked once or held by the one frame that will return it,
    and a filter writes the variables of its handler's method; a frame that `Pop` destroys while a
    callee is inlined in it loses a buffer. -/
theorem inlined_calls (rt : Runtime β) :
    (∀ (th : Thread β) (frame : Frame) (regs : Registers) (callee : MethodDefInstance)
        (extension : Int) (th₀ : Thread β) (inl : Frame) (regs₀ : Registers)
        (accesses : List (Access β)) (depth : Nat) (exit : Exit),
      Calling frame regs callee → Fresh frame callee extension →
      pushInline rt th frame regs callee (firstArg regs callee) = some (true, th₀, inl, regs₀) →
      Within callee.target 0 accesses depth →
      (∀ a ∈ accesses, Elsewhere frame regs callee extension a) →
      InlinedCall rt th frame regs callee extension th₀ inl accesses depth exit) ∧
    (∀ (count : Nat) (s : System β), 0 < count → s.th.cache = EventCache.ofCount count →
      (∀ k, s.inlineFrame k = none) →
      ∀ ops op, Meets (step rt) (fun s op => op.Safe s) s (ops ++ [op]) →
        ∃ s₁ rs s₂, run (step rt) s ops = some (s₁, rs) ∧ step rt s₁ op = some (s₂, ()) ∧
          (∃ free, Pool count s₂ free) ∧ Writes s₁ s₂ op) ∧
    ∀ (count : Nat) (s s' : System β) (free : List Nat) (k p : Nat) (caller : Option Nat),
      Pool count s free → s.inlineFrame k = some p → step rt s (.pop k caller) = some (s', ()) →
      s'.frames k = none → ∀ free', ¬ Pool count s' free' := by
  refine ⟨?_, ?_, fun count s s' free k p caller h hheld hstep hgone => pop_leaks h hheld hstep hgone⟩
  · intro th frame regs callee extension th₀ inl regs₀ accesses depth exit hcalling hfresh hpush
      hwithin helsewhere
    exact pushInline_call hcalling hpush hfresh exit hwithin helsewhere
  · intro count s hcount hcache hframes ops op hmeets
    obtain ⟨hbefore, hlast⟩ := meets_snoc (step rt) ops s hmeets
    obtain ⟨s₁, rs, hrun, free, hpool⟩ := run_invariant (step rt)
      (fun s op (h : ∃ free, Pool count s free) hsafe =>
        let ⟨_, hpool⟩ := h
        let ⟨s', hstep, hpool'⟩ := step_pool hpool op hsafe
        ⟨s', (), hstep, hpool'⟩) ops s ⟨_, pool_ofCount hcount hcache hframes⟩ hbefore
    obtain ⟨s₂, hstep, hpool₂⟩ := @step_pool _ rt _ _ _ hpool op (hlast s₁ rs hrun)
    exact ⟨s₁, rs, s₂, hrun, hstep, hpool₂, step_writes (hlast s₁ rs hrun) hstep⟩

/-! A method that calls another one with one argument, which pushes a value and returns it -/

def sampleMethod (numArgs numLocals lengthEvalStack : Nat) : MethodDefInstance where
  assm := ⟨none, 0⟩
  method := 0
  target := ⟨5, 0, .i4, numArgs, numLocals, lengthEvalStack⟩

def sampleFrame : Frame where
  nativeMethod := .executeIL
  flags := { Flags.native with interpreted := true }
  call := sampleMethod 0 1 2
  arguments := 20
  locals := 0
  ip := some 8
  ipStart := some 5
  evalStack := 1
  evalStackPos := 2
  evalStackEnd := 11
  inlineFrame := none

def sampleRuntime : Runtime Nat where
  promote := id
  dereferenced := id
  initialLocals := fun m => List.replicate m.target.numLocals 0
  length_initialLocals := fun _ => List.length_replicate

def sampleThread : Thread Nat where
  blocks := fun _ => 3
  currentException := false
  cache := EventCache.ofCount 2

def sampleRegisters : Registers := ⟨8, ⟨none, 0⟩, 1⟩

theorem sampleFrame_calling : Calling sampleFrame sampleRegisters (sampleMethod 1 1 2) where
  locals_below := by decide
  arguments_apart := by decide
  arguments_pushed := by decide
  not_inlined := rfl
  no_return_value := rfl
  not_constructing := rfl

def sampleSystem : System Nat where
  th := sampleThread
  frames
    | 0 => some sampleFrame
    | _ => none

theorem sampleSystem_empty (k : Nat) : sampleSystem.inlineFrame k = none := by
  cases k <;> rfl

theorem inlined_calls_sample :
    (∃ th₀ inl, InlinedCall sampleRuntime sampleThread sampleFrame sampleRegisters
      (sampleMethod 1 1 2) 50 th₀ inl [.push 7] 1 .ret) ∧
    (∃ s₁ rs s₂, run (step sampleRuntime) sampleSystem
      [.call 0 sampleRegisters (sampleMethod 1 1 2) 1, .access 0 (.push 7), .leave 0 .ret] =
        some (s₁, rs) ∧ step sampleRuntime s₁ (.pop 0 none) = some (s₂, ()) ∧
      (∃ free, Pool 2 s₂ free) ∧ Writes s₁ s₂ (.pop 0 none)) ∧
    ∃ s₁ s₂, step sampleRuntime sampleSystem (.call 0 sampleRegisters (sampleMethod 1 1 2) 1) =
        some (s₁, ()) ∧ step sampleRuntime s₁ (.pop 0 none) = some (s₂, ()) ∧
      ∀ free, ¬ Pool 2 s₂ free := by
  obtain ⟨hcall, hruns, hleaks⟩ := inlined_calls sampleRuntime
  refine ⟨⟨_, _, hcall _ _ _ _ 50 _ _ _ _ _ _ sampleFrame_calling (Or.inr (by decide)) rfl
    (.cons rfl .nil) ?_⟩, hruns 2 _ (by decide) rfl sampleSystem_empty _ _ ?_, ?_⟩
  · intro a ha
    obtain rfl := List.mem_singleton.mp ha
    trivial
  · exact meets_cons _ trivial rfl (meets_cons _ trivial rfl (meets_cons _ trivial rfl
      (meets_cons _ rfl rfl trivial)))
  · obtain ⟨s₀, rs, s₁, hrun, hstep, ⟨free, hpool⟩, -⟩ :=
      hruns 2 sampleSystem (by decide) rfl sampleSystem_empty []
        (.call 0 sampleRegisters (sampleMethod 1 1 2) 1) (meets_cons _ trivial rfl trivial)
    obtain rfl : sampleSystem = s₀ := congrArg Prod.fst (Option.some.inj hrun)
    have hcalled := Prod.mk.inj (Option.some.inj hstep)
    refine ⟨s₁, _, hstep, rfl, hleaks 2 s₁ _ free 0 0 none hpool ?_ rfl ?_⟩
    · rw [← hcalled.1]
      rfl
    · rfl

/-! ### The end of a filter -/

/-- A frame with a filter, and the pseudo frame where the filter runs; there is one buffer. -/
def filterSystem : System Nat where
  th := { sampleThread with cache := EventCache.ofCount 1 }
  frames
    | 0 => some sampleFrame
    | 1 => some { sampleFrame with
        flags := { sampleFrame.flags with pseudoStackFrameForFilter := true }
        arguments := 50
        locals := 30
        evalStack := 31
        evalStackPos := 32
        evalStackEnd := 41 }
    | _ => none

/-- What the filter calls is inlined and throws: the filter's frame is destroyed with the only buffer,
    and the local of the method gets the value of the callee's local, not that of the filter's. -/
theorem filter_loses_buffer : ∃ s, run (step sampleRuntime) filterSystem
    [.call 1 ⟨8, ⟨none, 0⟩, 31⟩ (sampleMethod 1 1 2) 31, .access 1 (.setException true),
      .copyVars 0 1, .pop 1 (some 0)] = some (s, [(), (), (), ()]) ∧
    s.th.cache.inlineBufferStart = none ∧ (∀ k, s.inlineFrame k = none) ∧
    filterSystem.th.blocks 30 = 3 ∧ s.th.blocks 0 = 0 := by
  refine ⟨_, rfl, rfl, fun k => ?_, rfl, rfl⟩
  match k with
  | 0 => rfl
  | 1 => rfl
  | k + 2 => rfl

end TinyClr.StackFrame
