import TinyClr.Core.StackFrame
import TinyClr.Library.Correspondence
import Mathlib.Data.Nat.Bitwise
import Mathlib.Tactic.Ring

/-!
# An inlined callee beside one with a frame of its own

While a callee runs inlined, its locals and its evaluation stack lie in the free part of its caller's
evaluation stack.  The same accesses in a frame that `Push` makes come to corresponding cells.
-/

namespace TinyClr.StackFrame

open TinyClr.Library (Agrees)

variable {β : Type*} {rt : Runtime β} {th thS : Thread β} {frame sep : Frame} {regs : Registers}
  {callee : MethodDefInstance} {extension : Int} {p : Nat}

/-! ### Calls -/

def firstArg (regs : Registers) (callee : MethodDefInstance) : Int :=
  regs.evalPos + 1 - callee.target.numArgs

/-- An interpreted frame that calls: its locals lie below its evaluation stack and its arguments
    elsewhere, the callee's arguments are on its stack, and nothing is inlined in it. -/
structure Calling (frame : Frame) (regs : Registers) (callee : MethodDefInstance) : Prop where
  locals_below : frame.locals + frame.call.target.numLocals ≤ frame.evalStack
  arguments_apart : frame.arguments + frame.call.target.numArgs ≤ frame.evalStack ∨
    frame.evalStackEnd ≤ frame.arguments
  arguments_pushed : frame.evalStack ≤ firstArg regs callee
  not_inlined : frame.flags.inlined = false
  no_return_value : frame.flags.inlineMethodHasReturnValue = false
  not_constructing : frame.flags.executingConstructor = false

def HasRoom (frame : Frame) (regs : Registers) (callee : MethodDefInstance) : Prop :=
  regs.evalPos + callee.target.numArgs + callee.target.numLocals + callee.target.lengthEvalStack + 2 <
    frame.evalStackEnd

def frameSize (callee : MethodDefInstance) : Nat := (frameSizes callee.target (-1)).2

theorem frameSizes_fit (md : MethodDef) (extraBlocks : Int) :
    md.lengthEvalStack ≤ (frameSizes md extraBlocks).1 ∧
      md.numLocals + (frameSizes md extraBlocks).1 + extraBlocks.toNat ≤
        (frameSizes md extraBlocks).2 := by
  unfold frameSizes c_MinimumStack c_OverheadForNewObjOrInteropMethod
  dsimp only
  split_ifs <;> constructor <;> dsimp only <;> omega

/-- The node that the callee would get lies apart from the caller's locals and evaluation stack. -/
def Fresh (frame : Frame) (callee : MethodDefInstance) (extension : Int) : Prop :=
  extension + frameSize callee ≤ frame.locals ∨ frame.evalStackEnd ≤ extension

/-- The slots that `PushInline` borrows -/
def Borrowed (frame : Frame) (regs : Registers) (a : Int) : Prop :=
  regs.evalPos < a ∧ a < frame.evalStackEnd

def InNode (callee : MethodDefInstance) (extension a : Int) : Prop :=
  extension ≤ a ∧ a < extension + frameSize callee

/-! ### Accesses -/

/-- The depth of the callee's evaluation stack after an access that stays within what the method
    declares -/
def depthAfter (md : MethodDef) (d : Nat) : Access β → Option Nat
  | .storeArg i _ => if i < md.numArgs then some d else none
  | .storeLocal i _ => if i < md.numLocals then some d else none
  | .push _ => if d < md.lengthEvalStack then some (d + 1) else none
  | .pop => if 0 < d then some (d - 1) else none
  | .empty => some 0
  | .store _ _ | .jump _ | .setException _ | .search => some d

inductive Within (md : MethodDef) : Nat → List (Access β) → Nat → Prop
  | nil {d : Nat} : Within md d [] d
  | cons {d e f : Nat} {a : Access β} {accesses : List (Access β)} :
      depthAfter md d a = some e → Within md e accesses f → Within md d (a :: accesses) f

/-- A reference does not lead to slots that a callee does not know of. -/
def Elsewhere (frame : Frame) (regs : Registers) (callee : MethodDefInstance) (extension : Int) :
    Access β → Prop
  | .store a _ => ¬ Borrowed frame regs a ∧ ¬ InNode callee extension a
  | _ => True

/-! ### Corresponding slots -/

/-- A slot that both callees know, a local, or one of the `d` entries of the evaluation stack.  The
    stack of the inlined callee starts one slot higher until it is emptied. -/
def Corresponds (frame : Frame) (regs : Registers) (callee : MethodDefInstance) (extension : Int)
    (b : Bool) (d : Nat) (a a' : Int) : Prop :=
  (a = a' ∧ ¬ Borrowed frame regs a ∧ ¬ InNode callee extension a) ∨
  ((frame.evalStackEnd - callee.target.numLocals ≤ a ∧ a < frame.evalStackEnd) ∧
    a' - extension = a - (frame.evalStackEnd - callee.target.numLocals)) ∨
  ((regs.evalPos + 1 + b.toNat ≤ a ∧ a < regs.evalPos + 1 + b.toNat + d) ∧
    a' - (extension + callee.target.numLocals) = a - (regs.evalPos + 1 + b.toNat))

theorem frameSize_fits (callee : MethodDefInstance) :
    callee.target.numLocals + callee.target.lengthEvalStack ≤ frameSize callee := by
  have := frameSizes_fit callee.target (-1)
  unfold frameSize
  omega

variable {a' x : Int}

theorem Corresponds.unique (hroom : HasRoom frame regs callee) {b : Bool} {d : Nat}
    (hd : d ≤ callee.target.lengthEvalStack) {a x' : Int}
    (h : Corresponds frame regs callee extension b d a a')
    (hx : Corresponds frame regs callee extension b d x x') : a = x ↔ a' = x' := by
  have hfits := frameSize_fits callee
  have hb : b.toNat ≤ 1 := Bool.toNat_le b
  unfold HasRoom at hroom
  unfold Corresponds Borrowed InNode at h hx
  omega

theorem Corresponds.shared {b : Bool} {d : Nat} {a : Int} (hborrowed : ¬ Borrowed frame regs a)
    (hnode : ¬ InNode callee extension a) : Corresponds frame regs callee extension b d a a :=
  Or.inl ⟨rfl, hborrowed, hnode⟩

variable {i : Nat}

theorem Corresponds.local {b : Bool} {d : Nat} (hi : i < callee.target.numLocals) :
    Corresponds frame regs callee extension b d
      (frame.evalStackEnd - callee.target.numLocals + i) (extension + i) :=
  Or.inr (Or.inl ⟨⟨by omega, by omega⟩, by omega⟩)

theorem Corresponds.entry {b : Bool} {d : Nat} (hi : i < d) :
    Corresponds frame regs callee extension b d (regs.evalPos + 1 + b.toNat + i)
      (extension + callee.target.numLocals + i) :=
  Or.inr (Or.inr ⟨⟨by omega, by omega⟩, by omega⟩)

theorem Corresponds.of_le {b : Bool} {d e : Nat} (hle : e ≤ d) {a : Int}
    (h : Corresponds frame regs callee extension b e a a') :
    Corresponds frame regs callee extension b d a a' := by
  rcases h with hshared | hlocal | ⟨hentry, hoffset⟩
  · exact Or.inl hshared
  · exact Or.inr (Or.inl hlocal)
  · exact Or.inr (Or.inr ⟨by omega, hoffset⟩)

theorem Corresponds.of_empty {b c : Bool} {d : Nat} {a : Int}
    (h : Corresponds frame regs callee extension c 0 a a') :
    Corresponds frame regs callee extension b d a a' := by
  rcases h with hshared | hlocal | ⟨hentry, -⟩
  · exact Or.inl hshared
  · exact Or.inr (Or.inl hlocal)
  · exact absurd hentry (by omega)

theorem Corresponds.of_succ {b : Bool} {d : Nat} {a : Int}
    (h : Corresponds frame regs callee extension b (d + 1) a a')
    (hne : a ≠ regs.evalPos + 1 + b.toNat + d) :
    Corresponds frame regs callee extension b d a a' := by
  rcases h with hshared | hlocal | ⟨hentry, hoffset⟩
  · exact Or.inl hshared
  · exact Or.inr (Or.inl hlocal)
  · exact Or.inr (Or.inr ⟨by omega, hoffset⟩)

/-! ### The two runs -/

/-- The frame of an inlined callee, but for its instruction pointer and its evaluation stack, which
    has `d` entries -/
structure RunsInline (frame : Frame) (regs : Registers) (callee : MethodDefInstance) (p : Nat)
    (cache : EventCache) (b : Bool) (d : Nat) (th : Thread β) (inl : Frame) : Prop where
  frame_eq : inl = { frame.inlined regs callee (firstArg regs callee) p with
    ip := inl.ip
    evalStackPos := regs.evalPos + 1 + b.toNat + d }
  cache_eq : th.cache = cache
  backed_up : cache.buffers p = .frame (backup frame regs (firstArg regs callee))

/-- The frame of its own, and the two memories -/
structure RunsBeside (frame : Frame) (regs : Registers) (callee : MethodDefInstance)
    (extension : Int) (sep₀ : Frame) (b : Bool) (d : Nat) (th : Thread β) (inl : Frame)
    (thS : Thread β) (sep : Frame) : Prop where
  frame_eq : sep = { sep₀ with ip := inl.ip, evalStackPos := sep₀.evalStack + d }
  exception : thS.currentException = th.currentException
  agrees : Agrees (Corresponds frame regs callee extension b d) th.blocks thS.blocks

/-- The frame that `Push` makes for the callee -/
structure Separate (callee : MethodDefInstance) (regs : Registers) (extension : Int) (sep₀ : Frame) :
    Prop where
  call : sep₀.call = callee
  arguments : sep₀.arguments = firstArg regs callee
  locals : sep₀.locals = extension
  evalStack : sep₀.evalStack = extension + callee.target.numLocals
  inlineFrame : sep₀.inlineFrame = none
  pseudoStackFrameForFilter : sep₀.flags.pseudoStackFrameForFilter = false

theorem access_search {cache : EventCache} {b : Bool} {d : Nat} {inl : Frame}
    (h : RunsInline frame regs callee p cache b d th inl) :
    access th inl .search = some (th, inl) := by
  have hbuffer : restoreFromInlineStack th.cache inl = some
      { inl with
        arguments := frame.arguments
        locals := frame.locals
        evalStackEnd := inl.evalStackEnd + inl.call.target.numLocals
        call := frame.call
        ip := some regs.ip
        ipStart := frame.ipStart
        evalStack := frame.evalStack
        evalStackPos := firstArg regs callee } := by
    have hinline : inl.inlineFrame = some p := by rw [h.frame_eq]; rfl
    simp [restoreFromInlineStack, hinline, h.cache_eq, h.backed_up, backup]
  have hinline : inl.inlineFrame = some p := by rw [h.frame_eq]; rfl
  simp only [access, hinline, beginSearch, hbuffer, Option.map_some, restoreStack, saveStack,
    Int.add_sub_cancel]
  rw [← hinline]

section Simulation

variable {cache : EventCache} {b : Bool} {d e : Nat} {inl sep₀ : Frame}

theorem RunsInline.locals_eq (h : RunsInline frame regs callee p cache b d th inl) :
    inl.locals = frame.evalStackEnd - callee.target.numLocals := by
  rw [h.frame_eq]
  rfl

theorem RunsInline.arguments_eq (h : RunsInline frame regs callee p cache b d th inl) :
    inl.arguments = firstArg regs callee := by
  rw [h.frame_eq]
  rfl

theorem RunsInline.evalStack_eq (h : RunsInline frame regs callee p cache b d th inl) :
    inl.evalStack = regs.evalPos + 1 := by
  rw [h.frame_eq]
  rfl

theorem RunsInline.evalStackPos_eq (h : RunsInline frame regs callee p cache b d th inl) :
    inl.evalStackPos = regs.evalPos + 1 + b.toNat + d := by
  rw [h.frame_eq]

theorem RunsInline.move (h : RunsInline frame regs callee p cache b d th inl) {c : Bool} {pos : Int}
    (hpos : pos = regs.evalPos + 1 + c.toNat + e) (hcache : thS.cache = th.cache) :
    RunsInline frame regs callee p cache c e thS { inl with evalStackPos := pos } where
  frame_eq := by
    rw [hpos]
    conv_lhs => rw [h.frame_eq]
  cache_eq := hcache.trans h.cache_eq
  backed_up := h.backed_up

theorem RunsInline.keep (h : RunsInline frame regs callee p cache b d th inl)
    (hcache : thS.cache = th.cache) : RunsInline frame regs callee p cache b d thS inl where
  frame_eq := h.frame_eq
  cache_eq := hcache.trans h.cache_eq
  backed_up := h.backed_up

theorem RunsBeside.write (hroom : HasRoom frame regs callee)
    (hd : d ≤ callee.target.lengthEvalStack)
    (h : RunsBeside frame regs callee extension sep₀ b d th inl thS sep) {x' : Int}
    (hx : Corresponds frame regs callee extension b d x x') (v : β) :
    RunsBeside frame regs callee extension sep₀ b d
      { th with blocks := Function.update th.blocks x v } inl
      { thS with blocks := Function.update thS.blocks x' v } sep where
  frame_eq := h.frame_eq
  exception := h.exception
  agrees := h.agrees.update (fun _ _ ha => ha.unique hroom hd hx) (fun _ _ ha _ => ha)

theorem argument_shared (hcalling : Calling frame regs callee) (hroom : HasRoom frame regs callee)
    (hfresh : Fresh frame callee extension) (hi : i < callee.target.numArgs) :
    ¬ Borrowed frame regs (firstArg regs callee + i) ∧
      ¬ InNode callee extension (firstArg regs callee + i) := by
  have hbelow := hcalling.locals_below
  have hpushed := hcalling.arguments_pushed
  unfold Borrowed InNode firstArg at *
  unfold Fresh at hfresh
  unfold HasRoom at hroom
  constructor <;> omega

/-- **Step of the simulation.**  One access in the borrowed slots and in a frame of its own. -/
theorem access_simulated {a : Access β} (hroom : HasRoom frame regs callee)
    (hfresh : Fresh frame callee extension) (hcalling : Calling frame regs callee)
    (hsep : Separate callee regs extension sep₀)
    (hinline : RunsInline frame regs callee p cache b d th inl)
    (hbeside : RunsBeside frame regs callee extension sep₀ b d th inl thS sep)
    (hd : d ≤ callee.target.lengthEvalStack)
    (hwithin : depthAfter callee.target d a = some e)
    (helsewhere : Elsewhere frame regs callee extension a) :
    ∃ th' inl' thS' sep' c, access th inl a = some (th', inl') ∧
      access thS sep a = some (thS', sep') ∧ e ≤ callee.target.lengthEvalStack ∧
      RunsInline frame regs callee p cache c e th' inl' ∧
      RunsBeside frame regs callee extension sep₀ c e th' inl' thS' sep' := by
  have hsepPos : sep.evalStackPos = extension + callee.target.numLocals + d := by
    rw [hbeside.frame_eq, ← hsep.evalStack]
  have hsepArguments : sep.arguments = firstArg regs callee := by
    rw [hbeside.frame_eq]
    exact hsep.arguments
  have hsepLocals : sep.locals = extension := by
    rw [hbeside.frame_eq]
    exact hsep.locals
  cases a with
  | storeArg i v =>
    obtain ⟨hi, heq⟩ := Option.ite_none_right_eq_some.mp hwithin
    obtain rfl := Option.some.inj heq
    refine ⟨_, _, _, _, b, rfl, rfl, hd, hinline.keep rfl, ?_⟩
    obtain ⟨hborrowed, hnode⟩ := argument_shared hcalling hroom hfresh hi
    rw [hinline.arguments_eq, hsepArguments]
    exact hbeside.write hroom hd (.shared hborrowed hnode) v
  | storeLocal i v =>
    obtain ⟨hi, heq⟩ := Option.ite_none_right_eq_some.mp hwithin
    obtain rfl := Option.some.inj heq
    refine ⟨_, _, _, _, b, rfl, rfl, hd, hinline.keep rfl, ?_⟩
    rw [hinline.locals_eq, hsepLocals]
    exact hbeside.write hroom hd (.local hi) v
  | store x v =>
    obtain rfl := Option.some.inj hwithin
    refine ⟨_, _, _, _, b, rfl, rfl, hd, hinline.keep rfl, ?_⟩
    exact hbeside.write hroom hd (.shared helsewhere.1 helsewhere.2) v
  | push v =>
    obtain ⟨hlt, heq⟩ := Option.ite_none_right_eq_some.mp hwithin
    obtain rfl := Option.some.inj heq
    have hentry : Corresponds frame regs callee extension b (d + 1)
        (regs.evalPos + 1 + b.toNat + d) (extension + callee.target.numLocals + d) :=
      .entry (Nat.lt_succ_self d)
    refine ⟨_, _, _, _, b, rfl, rfl, hlt, hinline.move ?_ rfl, ?_, hbeside.exception, ?_⟩
    · rw [hinline.evalStackPos_eq]
      push_cast
      ring
    · rw [hbeside.frame_eq]
      simp [add_assoc]
    · rw [hinline.evalStackPos_eq, hsepPos]
      exact hbeside.agrees.update (fun _ _ ha => ha.unique hroom hlt hentry)
        (fun _ _ ha hne => ha.of_succ hne)
  | pop =>
    obtain ⟨hpos, heq⟩ := Option.ite_none_right_eq_some.mp hwithin
    obtain rfl := Option.some.inj heq
    refine ⟨_, _, _, _, b, rfl, rfl, by omega, hinline.move ?_ rfl, ?_, hbeside.exception, ?_⟩
    · rw [hinline.evalStackPos_eq]
      omega
    · rw [hbeside.frame_eq]
      congr 1
      dsimp only
      omega
    · exact hbeside.agrees.mono fun _ _ ha => ha.of_le (Nat.sub_le d 1)
  | empty =>
    obtain rfl := Option.some.inj hwithin
    refine ⟨_, _, _, _, false, rfl, rfl, Nat.zero_le _, hinline.move ?_ rfl, ?_,
      hbeside.exception, ?_⟩
    · rw [hinline.evalStack_eq]
      simp
    · rw [hbeside.frame_eq]
      simp
    · exact hbeside.agrees.mono fun _ _ ha => ha.of_empty
  | jump ip =>
    obtain rfl := Option.some.inj hwithin
    refine ⟨_, _, _, _, b, rfl, rfl, hd, ⟨?_, hinline.cache_eq, hinline.backed_up⟩, ?_,
      hbeside.exception, hbeside.agrees⟩
    · conv_lhs => rw [hinline.frame_eq]
    · rw [hbeside.frame_eq]
  | setException pending =>
    obtain rfl := Option.some.inj hwithin
    exact ⟨_, _, _, _, b, rfl, rfl, hd, hinline.keep rfl, hbeside.frame_eq, rfl, hbeside.agrees⟩
  | search =>
    obtain rfl := Option.some.inj hwithin
    have hseparate : sep.inlineFrame = none := by
      rw [hbeside.frame_eq]
      exact hsep.inlineFrame
    refine ⟨th, inl, thS, sep, b, access_search hinline, ?_, hd, hinline, hbeside⟩
    rw [access, hseparate]

/-- The slots that a call takes from its caller: the arguments and the free part of the stack -/
def Given (frame : Frame) (regs : Registers) (callee : MethodDefInstance) (x : Int) : Prop :=
  firstArg regs callee ≤ x ∧ x < frame.evalStackEnd

theorem access_kept {a : Access β} {th' : Thread β} {inl' : Frame}
    (hroom : HasRoom frame regs callee) (hinline : RunsInline frame regs callee p cache b d th inl)
    (hwithin : depthAfter callee.target d a = some e) (haccess : access th inl a = some (th', inl'))
    (hx : ¬ Given frame regs callee x) (hstore : ∀ v, a ≠ .store x v) :
    th'.blocks x = th.blocks x := by
  have hb : b.toNat ≤ 1 := Bool.toNat_le b
  unfold Given firstArg at hx
  unfold HasRoom at hroom
  cases a with
  | storeArg i v =>
    obtain ⟨hi, -⟩ := Option.ite_none_right_eq_some.mp hwithin
    obtain ⟨rfl, -⟩ := Prod.mk.inj (Option.some.inj haccess)
    refine Function.update_of_ne ?_ _ _
    rw [hinline.arguments_eq, firstArg]
    omega
  | storeLocal i v =>
    obtain ⟨hi, -⟩ := Option.ite_none_right_eq_some.mp hwithin
    obtain ⟨rfl, -⟩ := Prod.mk.inj (Option.some.inj haccess)
    refine Function.update_of_ne ?_ _ _
    rw [hinline.locals_eq]
    omega
  | store y v =>
    obtain ⟨rfl, -⟩ := Prod.mk.inj (Option.some.inj haccess)
    exact Function.update_of_ne (fun heq : x = y => hstore v (by rw [heq])) _ _
  | push v =>
    obtain ⟨hlt, -⟩ := Option.ite_none_right_eq_some.mp hwithin
    obtain ⟨rfl, -⟩ := Prod.mk.inj (Option.some.inj haccess)
    refine Function.update_of_ne ?_ _ _
    rw [hinline.evalStackPos_eq]
    omega
  | pop | empty | jump ip | setException pending =>
    obtain ⟨rfl, -⟩ := Prod.mk.inj (Option.some.inj haccess)
    rfl
  | search =>
    rw [access_search hinline] at haccess
    obtain ⟨rfl, -⟩ := Prod.mk.inj (Option.some.inj haccess)
    rfl

/-- **Run of the simulation.**  Every callee comes to the same entries, locals and memory, and leaves
    the slots of its caller alone. -/
theorem run_simulated {accesses : List (Access β)} {f : Nat} (hroom : HasRoom frame regs callee)
    (hfresh : Fresh frame callee extension) (hcalling : Calling frame regs callee)
    (hsep : Separate callee regs extension sep₀) (hwithin : Within callee.target d accesses f)
    (hinline : RunsInline frame regs callee p cache b d th inl)
    (hbeside : RunsBeside frame regs callee extension sep₀ b d th inl thS sep)
    (hd : d ≤ callee.target.lengthEvalStack)
    (helsewhere : ∀ a ∈ accesses, Elsewhere frame regs callee extension a) :
    ∃ th' inl' thS' sep' c, runAccesses th inl accesses = some (th', inl') ∧
      runAccesses thS sep accesses = some (thS', sep') ∧ f ≤ callee.target.lengthEvalStack ∧
      RunsInline frame regs callee p cache c f th' inl' ∧
      RunsBeside frame regs callee extension sep₀ c f th' inl' thS' sep' ∧
      ∀ x, ¬ Given frame regs callee x → (∀ v, .store x v ∉ accesses) →
        th'.blocks x = th.blocks x := by
  induction hwithin generalizing b th inl thS sep with
  | nil => exact ⟨th, inl, thS, sep, b, rfl, rfl, hd, hinline, hbeside, fun _ _ _ => rfl⟩
  | cons hfirst hrest ih =>
    obtain ⟨th₁, inl₁, thS₁, sep₁, c, hrun, hrunS, he, hinline₁, hbeside₁⟩ :=
      access_simulated hroom hfresh hcalling hsep hinline hbeside hd hfirst
        (helsewhere _ (List.mem_cons_self ..))
    obtain ⟨th', inl', thS', sep', c', hruns, hrunsS, hf, hinline', hbeside', hkept⟩ :=
      ih hinline₁ hbeside₁ he fun a ha => helsewhere a (List.mem_cons_of_mem _ ha)
    refine ⟨th', inl', thS', sep', c', ?_, ?_, hf, hinline', hbeside', ?_⟩
    · rw [runAccesses, hrun]
      exact hruns
    · rw [runAccesses, hrunS]
      exact hrunsS
    · intro x hx hstore
      have hfirstKept := access_kept hroom hinline hfirst hrun hx
        fun v heq => hstore v (heq ▸ List.mem_cons_self ..)
      rw [hkept x hx fun v hv => hstore v (List.mem_cons_of_mem _ hv), hfirstKept]

end Simulation

/-! ### The start of the two callees -/

variable {blocks : Int → β}

theorem writeBlocks_outside {start a : Int} {values : List β}
    (h : a < start ∨ start + values.length ≤ a) : writeBlocks blocks start values a = blocks a := by
  unfold writeBlocks
  split_ifs with hle
  · rw [List.getElem?_eq_none (by omega), Option.getD_none]
  · rfl

theorem writeBlocks_congr {blocks' : Int → β} {start start' a : Int} {values : List β}
    (ha : start ≤ a ∧ a < start + values.length) (hoffset : a' - start' = a - start) :
    writeBlocks blocks start values a = writeBlocks blocks' start' values a' := by
  have hlt : (a - start).toNat < values.length := by omega
  unfold writeBlocks
  rw [if_pos ha.1, if_pos (by omega), hoffset, List.getElem?_eq_getElem hlt, Option.getD_some,
    Option.getD_some]

theorem flag_clear {flags : UInt32} {k : Nat}
    (h : ¬ MD_Constructor ≤ flags &&& ~~~MD_HasExceptionHandlers) (hk : 12 ≤ k) (hk' : k < 32)
    (hother : UInt32.ofNat (2 ^ k) &&& ~~~MD_HasExceptionHandlers = UInt32.ofNat (2 ^ k)) :
    flags &&& UInt32.ofNat (2 ^ k) = 0 := by
  have hlt : (flags &&& ~~~MD_HasExceptionHandlers).toNat < 2 ^ 12 := by
    have := UInt32.lt_iff_toNat_lt.mp (UInt32.not_le.mp h)
    exact this
  have hmask : flags &&& UInt32.ofNat (2 ^ k) =
      (flags &&& ~~~MD_HasExceptionHandlers) &&& UInt32.ofNat (2 ^ k) := by
    conv_lhs => rw [← hother]
    rw [UInt32.and_comm (UInt32.ofNat (2 ^ k)), UInt32.and_assoc]
  have hpow : (UInt32.ofNat (2 ^ k)).toNat = 2 ^ k := by
    have hle : 2 ^ k < 2 ^ 32 := Nat.pow_lt_pow_right (by omega) hk'
    rw [UInt32.toNat_ofNat', Nat.mod_eq_of_lt hle]
  rw [hmask]
  refine UInt32.toNat_inj.mp ?_
  have hbit : (flags &&& ~~~MD_HasExceptionHandlers).toNat.testBit k = false :=
    Nat.testBit_lt_two_pow (lt_of_lt_of_le hlt (Nat.pow_le_pow_right (by omega) hk))
  rw [UInt32.toNat_and, hpow, Nat.and_two_pow, hbit]
  simp

/-- The frame that `Push` makes for a callee that `PushInline` would accept -/
def separateFrame (regs : Registers) (callee : MethodDefInstance) (extension : Int) : Frame :=
  let ipStart := callee.assm.getByteCode callee.target.rva
  let evalStack := extension + callee.target.numLocals
  { nativeMethod := .executeIL
    flags :=
      { Flags.native with
        interpreted := true
        callerIsCompatibleForCall := true
        callerIsCompatibleForRet := true }
    call := callee
    arguments := firstArg regs callee
    locals := extension
    ip := some ipStart
    ipStart := some ipStart
    evalStack := evalStack
    evalStackPos := evalStack
    evalStackEnd := evalStack + (frameSizes callee.target (-1)).1
    inlineFrame := none }

theorem separateFrame_spec (regs : Registers) (callee : MethodDefInstance) (extension : Int) :
    Separate callee regs extension (separateFrame regs callee extension) :=
  ⟨rfl, rfl, rfl, rfl, rfl, rfl⟩

theorem push_eq (h : ¬ refuses frame regs callee) :
    push rt thS (writeback frame regs) callee (-1) (some extension) =
      .ok ({ thS with blocks := writeBlocks thS.blocks extension (rt.initialLocals callee) },
        separateFrame regs callee extension,
        { writeback frame regs with evalStackPos := firstArg regs callee }) := by
  unfold refuses at h
  simp only [not_or, not_not] at h
  obtain ⟨-, -, hIL, hflags, -, hnative, hrva⟩ := h
  have hdelegate : callee.target.flags &&& MD_DelegateInvoke = 0 :=
    @flag_clear _ 17 hflags (by omega) (by omega) (by decide)
  have hsynchronized : callee.target.flags &&& MD_Synchronized = 0 :=
    @flag_clear _ 24 hflags (by omega) (by omega) (by decide)
  have hglobally : callee.target.flags &&& MD_GloballySynchronized = 0 :=
    @flag_clear _ 25 hflags (by omega) (by omega) (by decide)
  simp [push, hdelegate, hsynchronized, hglobally, hnative, hrva, hIL, separateFrame, firstArg,
    writeback, Flags.native]

theorem pushInline_eq {cache : EventCache} (h : ¬ refuses frame regs callee)
    (hbuffer : th.cache.getInlineFrameBuffer = some (some p, cache)) :
    pushInline rt th frame regs callee (firstArg regs callee) =
      some (true,
        { th with
          cache := cache.setFrame p (backup frame regs (firstArg regs callee))
          blocks := writeBlocks th.blocks (frame.evalStackEnd - callee.target.numLocals)
            (rt.initialLocals callee) },
        frame.inlined regs callee (firstArg regs callee) p,
        ⟨callee.assm.getByteCode callee.target.rva, callee.assm, regs.evalPos + 1⟩) := by
  rw [pushInline, if_neg h, hbuffer]
  rfl

theorem hasRoom_of_accepted (h : ¬ refuses frame regs callee) : HasRoom frame regs callee := by
  unfold refuses at h
  unfold HasRoom
  simp only [not_or] at h
  omega

theorem agrees_start (hroom : HasRoom frame regs callee) (blocks : Int → β) :
    Agrees (Corresponds frame regs callee extension true 0)
      (writeBlocks blocks (frame.evalStackEnd - callee.target.numLocals) (rt.initialLocals callee))
      (writeBlocks blocks extension (rt.initialLocals callee)) := by
  have hlength := rt.length_initialLocals callee
  have hfits := frameSize_fits callee
  unfold HasRoom at hroom
  intro a a' h
  rcases h with ⟨rfl, hborrowed, hnode⟩ | ⟨hlocal, hoffset⟩ | ⟨hentry, -⟩
  · unfold Borrowed at hborrowed
    unfold InNode at hnode
    rw [writeBlocks_outside (by omega), writeBlocks_outside (by omega)]
  · exact writeBlocks_congr (by omega) hoffset
  · exact absurd hentry (by omega)

theorem runsInline_start {cache : EventCache} {blocks : Int → β} :
    RunsInline frame regs callee p
      (cache.setFrame p (backup frame regs (firstArg regs callee))) true 0
      { th with
        cache := cache.setFrame p (backup frame regs (firstArg regs callee))
        blocks := blocks }
      (frame.inlined regs callee (firstArg regs callee) p) where
  frame_eq := by
    unfold Frame.inlined
    simp [add_assoc]
  cache_eq := rfl
  backed_up := by simp [EventCache.setFrame]

/-! ### The end of the two callees -/

def returned (callee : MethodDefInstance) (pending : Bool) : Bool :=
  decide (callee.target.retVal ≠ .void) && !pending

/-- The caller after the call: the arguments are popped, a value that is returned is pushed. -/
def afterCall (frame : Frame) (regs : Registers) (callee : MethodDefInstance) (pushed : Bool) :
    Frame :=
  { writeback frame regs with evalStackPos := firstArg regs callee + pushed.toNat }

def afterBlocks (rt : Runtime β) (regs : Registers) (callee : MethodDefInstance) (pushed : Bool)
    (blocks : Int → β) (value : β) : Int → β :=
  if pushed then Function.update blocks (firstArg regs callee) (rt.promote value) else blocks

theorem pushPromoted_eq (blocks : Int → β) (frame : Frame) (value : β) :
    pushPromoted rt blocks frame value =
      (Function.update blocks frame.evalStackPos (rt.promote value),
        { frame with evalStackPos := frame.evalStackPos + 1 }) := by
  simp [pushPromoted, pushValueAndAssign]

/-- The caller's frame as `RestoreFromInlineStack` leaves it, still with the marks of the inlining -/
def restoredFrame (frame : Frame) (regs : Registers) (p : Nat) (has : Bool) (pos : Int) : Frame :=
  { writeback frame regs with
    evalStackPos := pos
    inlineFrame := some p
    flags := { frame.flags with inlined := true, inlineMethodHasReturnValue := has } }

theorem restoredFrame_cleared (hcalling : Calling frame regs callee)
    (hnone : frame.inlineFrame = none) (has : Bool) (pos : Int) :
    { restoredFrame frame regs p has pos with
      inlineFrame := none
      flags := { (restoredFrame frame regs p has pos).flags with
        inlined := false
        inlineMethodHasReturnValue := false } } = { writeback frame regs with evalStackPos := pos } := by
  have hinlined := hcalling.not_inlined
  have hvalue := hcalling.no_return_value
  obtain ⟨_, flags⟩ := frame
  obtain ⟨⟩ := flags
  simp only at hinlined hvalue hnone
  simp [restoredFrame, writeback, hinlined, hvalue, hnone]

theorem popInline_eq {cache : EventCache} {b : Bool} {d : Nat} {inl : Frame} (q : Int)
    (hcalling : Calling frame regs callee) (hnone : frame.inlineFrame = none)
    (h : RunsInline frame regs callee p cache b d th inl) :
    popInline rt th { inl with evalStackPos := q } =
      some ({ th with
          cache := cache.freeInlineBuffer p
          blocks := afterBlocks rt regs callee (returned callee th.currentException) th.blocks
            (th.blocks q) },
        afterCall frame regs callee (returned callee th.currentException)) := by
  have hvalue := hcalling.no_return_value
  have hinline : inl.inlineFrame = some p := by
    rw [h.frame_eq]
    rfl
  have hrestore : restoreFromInlineStack th.cache { inl with evalStackPos := q } =
      some (restoredFrame frame regs p (decide (callee.target.retVal ≠ .void))
        (firstArg regs callee)) := by
    rw [h.frame_eq]
    simp [restoreFromInlineStack, Frame.inlined, h.cache_eq, h.backed_up, backup, writeback, hvalue,
      restoredFrame]
  rw [popInline, hrestore]
  simp only [hinline, h.cache_eq]
  cases hreturned : returned callee th.currentException with
  | true =>
    have hpush : (restoredFrame frame regs p (decide (callee.target.retVal ≠ .void))
        (firstArg regs callee)).flags.inlineMethodHasReturnValue && !th.currentException :=
      hreturned
    rw [if_pos hpush, pushPromoted_eq]
    exact congrArg some (Prod.ext rfl
      (restoredFrame_cleared hcalling hnone _ (firstArg regs callee + 1)))
  | false =>
    have hpush : ¬ ((restoredFrame frame regs p (decide (callee.target.retVal ≠ .void))
        (firstArg regs callee)).flags.inlineMethodHasReturnValue && !th.currentException) = true :=
      Bool.eq_false_iff.mp hreturned
    rw [if_neg hpush]
    refine congrArg some (Prod.ext rfl ?_)
    exact (restoredFrame_cleared hcalling hnone _ (firstArg regs callee)).trans
      (by simp [afterCall])

theorem leaveInline_eq {cache : EventCache} {b : Bool} {d : Nat} {inl : Frame} {exit : Exit}
    (hcalling : Calling frame regs callee) (hnone : frame.inlineFrame = none)
    (h : RunsInline frame regs callee p cache b d th inl)
    (hexit : exit = .unwind → th.currentException = true) :
    leaveInline rt th inl exit =
      some ({ th with
          cache := cache.freeInlineBuffer p
          blocks := afterBlocks rt regs callee (returned callee th.currentException) th.blocks
            (th.blocks (inl.evalStackPos - 1)) },
        afterCall frame regs callee (returned callee th.currentException)) := by
  cases exit with
  | ret => exact popInline_eq _ hcalling hnone h
  | unwind =>
    have hpending := hexit rfl
    have hnothing : returned callee th.currentException = false := by simp [returned, hpending]
    have hpop := @popInline_eq _ rt _ _ _ _ _ _ _ _ _ inl.evalStackPos hcalling hnone h
    simpa [leaveInline, hnothing, afterBlocks] using hpop

theorem pop_eq {b : Bool} {d : Nat} {inl sep₀ : Frame} (hcalling : Calling frame regs callee)
    (hsep : Separate callee regs extension sep₀)
    (h : RunsBeside frame regs callee extension sep₀ b d th inl thS sep) :
    pop rt thS sep { writeback frame regs with evalStackPos := firstArg regs callee } =
      ({ thS with
          blocks := afterBlocks rt regs callee (returned callee th.currentException) thS.blocks
            (thS.blocks (sep.evalStackPos - 1)) },
        afterCall frame regs callee (returned callee th.currentException)) := by
  have hflags : sep.flags = sep₀.flags := by rw [h.frame_eq]
  have hcall : sep.call = callee := by
    rw [h.frame_eq]
    exact hsep.call
  have hconstructing : (writeback frame regs).flags.executingConstructor = false :=
    hcalling.not_constructing
  unfold pop
  simp only [hflags, hconstructing, hsep.pseudoStackFrameForFilter, Bool.false_eq_true, if_false,
    hcall, h.exception]
  cases hreturned : returned callee th.currentException with
  | true =>
    rw [returned, Bool.and_eq_true, decide_eq_true_eq, Bool.not_eq_true'] at hreturned
    rw [if_pos hreturned, pushPromoted_eq]
    rfl
  | false =>
    have hnot : ¬ (callee.target.retVal ≠ .void ∧ th.currentException = false) := by
      intro hboth
      simp [returned, hboth.1, hboth.2] at hreturned
    rw [if_neg hnot]
    simp only [afterBlocks, afterCall, Bool.false_eq_true, if_false, Bool.toNat_false, Nat.cast_zero,
      add_zero, ← h.exception]

end TinyClr.StackFrame
