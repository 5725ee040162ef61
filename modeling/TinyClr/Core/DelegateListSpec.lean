import TinyClr.Core.DelegateList

/-!
# Combining and removing delegates

What a delegate value is in a heap, and what `Combine` and `Remove` make of the sequence of calls.
Weak lists may hold slots whose delegates have been collected; they are left out when a list is
copied.
-/

namespace TinyClr.Delegates

/-! ### Delegate values -/

/-- No object stands where the next ones go. -/
def Heap.Valid (s : Heap) : Prop := ∀ a, s.next ≤ a → s.objects a = none

structure IsSlot (s : Heap) (r : Reference) : Prop where
  isObject : r.isObject = true
  delegate : ∀ a, r.ptr = some a → ∃ d, s.objects a = some (.delegate d)

structure IsList (s : Heap) (list : DelegateList) : Prop where
  length_le : list.length ≤ list.delegates.length
  slots : ∀ r ∈ list.delegates.take list.length, IsSlot s r

structure IsValue (s : Heap) (r : Reference) : Prop where
  isObject : r.isObject = true
  shape : ∀ a, r.ptr = some a → (∃ d, s.objects a = some (.delegate d)) ∨
    ∃ list, s.objects a = some (.delegateList list) ∧ IsList s list

def slots (s : Heap) (r : Reference) : List Reference :=
  match r.ptr with
  | none => []
  | some a =>
      match s.objects a with
      | some (.delegate _) => [r]
      | some (.delegateList list) => list.delegates.take list.length
      | _ => []

def Keeps (s s' : Heap) : Prop := ∀ a, (s.objects a).isSome → s'.objects a = s.objects a

theorem Keeps.refl (s : Heap) : Keeps s s := fun _ _ => rfl

variable {s s' : Heap}

theorem Keeps.trans {s'' : Heap} (h : Keeps s s') (h' : Keeps s' s'') : Keeps s s'' := by
  intro a ha
  rw [h' a (by rwa [h a ha]), h a ha]

theorem Keeps.objects (h : Keeps s s') {a : Nat} {o : HeapObject}
    (ha : s.objects a = some o) : s'.objects a = some o := by
  rw [h a (by rw [ha]; rfl), ha]

variable {r : Reference}

theorem IsSlot.keeps (h : IsSlot s r) (hk : Keeps s s') :
    IsSlot s' r where
  isObject := h.isObject
  delegate := fun a ha => by
    obtain ⟨d, hd⟩ := h.delegate a ha
    exact ⟨d, hk.objects hd⟩

theorem IsList.keeps {list : DelegateList} (h : IsList s list) (hk : Keeps s s') :
    IsList s' list where
  length_le := h.length_le
  slots := fun r hr => (h.slots r hr).keeps hk

theorem IsValue.keeps (h : IsValue s r) (hk : Keeps s s') :
    IsValue s' r where
  isObject := h.isObject
  shape := fun a ha => by
    rcases h.shape a ha with ⟨d, hd⟩ | ⟨list, hlist, hl⟩
    · exact .inl ⟨d, hk.objects hd⟩
    · exact .inr ⟨list, hk.objects hlist, hl.keeps hk⟩

theorem IsValue.null (s : Heap) : IsValue s (setObjectReference none) where
  isObject := rfl
  shape := fun _ ha => by cases ha

theorem IsSlot.value {s : Heap} {r : Reference} (h : IsSlot s r) : IsValue s r where
  isObject := h.isObject
  shape := fun a ha => .inl (h.delegate a ha)

theorem IsValue.slot {x : Reference} (h : IsValue s r) (hx : x ∈ slots s r) :
    IsSlot s x := by
  rcases hr : r.ptr with _ | a
  · simp [slots, hr] at hx
  rcases h.shape a hr with ⟨d, hd⟩ | ⟨list, hlist, hl⟩
  · simp only [slots, hr, hd, List.mem_singleton] at hx
    subst hx
    refine ⟨h.isObject, fun b hb => ?_⟩
    rw [hr] at hb
    cases hb
    exact ⟨d, hd⟩
  · simp only [slots, hr, hlist] at hx
    exact hl.slots x hx

theorem IsSlot.live_isSome {xs : List Reference} (h : ∀ x ∈ xs, IsSlot s x) :
    ∀ d ∈ live xs, ∃ x, s.objects d = some (.delegate x) := by
  intro d hd
  obtain ⟨x, hx, hptr⟩ := List.mem_filterMap.mp hd
  exact (h x hx).delegate d hptr

variable {d : Delegate}

theorem delegate_of_objects {a : Nat}
    (h : s.objects a = some (.delegate d)) : s.delegate a = some d := by
  rw [Heap.delegate, h]

theorem IsValue.invocation (h : IsValue s r) :
    invocation s r = live (slots s r) := by
  rcases hr : r.ptr with _ | a
  · simp [Delegates.invocation, slots, hr, live]
  rcases h.shape a hr with ⟨d, hd⟩ | ⟨list, hlist, hl⟩
  · simp [Delegates.invocation, slots, hr, hd, live]
  · simp only [Delegates.invocation, slots, hr, hlist]
    refine List.filter_eq_self.mpr fun d hd => ?_
    obtain ⟨x, hx⟩ := IsSlot.live_isSome hl.slots d hd
    rw [delegate_of_objects hx]
    rfl

theorem slots_keeps (h : IsValue s r) (hk : Keeps s s') :
    slots s' r = slots s r := by
  rcases hr : r.ptr with _ | a
  · simp only [slots, hr]
  rcases h.shape a hr with ⟨d, hd⟩ | ⟨list, hlist, -⟩
  · simp only [slots, hr, hd, hk.objects hd]
  · simp only [slots, hr, hlist, hk.objects hlist]

theorem IsValue.invocation_keeps (h : IsValue s r)
    (hk : Keeps s s') : Delegates.invocation s' r = Delegates.invocation s r := by
  rw [h.invocation, (h.keeps hk).invocation, slots_keeps h hk]

/-! ### New lists -/

theorem live_append (xs ys : List Reference) : live (xs ++ ys) = live xs ++ live ys :=
  List.filterMap_append

def references (ds : List Nat) : List Reference :=
  ds.map fun d => setObjectReference (some d)

theorem live_references (ds : List Nat) : live (references ds) = ds := by
  rw [live, references, List.filterMap_map]
  exact List.filterMap_some

@[simp] theorem length_references (ds : List Nat) : (references ds).length = ds.length :=
  List.length_map _

/-- The slots from `src` on, without those that were collected, stand behind what was copied
    before; the length of the list shrinks by those that were left out. -/
theorem copyAndCompress_spec : ∀ (num : Nat) (src : List Reference) (list : DelegateList)
    (front back : List Reference), list.delegates = front ++ back → num ≤ src.length →
    (live (src.take num)).length ≤ back.length →
    copyAndCompress num src list front.length = some
      ({ list with
          length := list.length - (num - (live (src.take num)).length)
          delegates := front ++ references (live (src.take num))
            ++ back.drop (live (src.take num)).length },
        front.length + (live (src.take num)).length) := by
  intro num
  induction num with
  | zero =>
    intro src list front back hlist _ _
    simp [copyAndCompress, live, references, ← hlist]
  | succ num ih =>
    intro src list front back hlist hnum hroom
    obtain _ | ⟨r, src⟩ := src
    · simp at hnum
    have hnum' : num ≤ src.length := by simpa using hnum
    have hcount : (live (src.take num)).length ≤ num :=
      Nat.le_trans (List.length_filterMap_le _ _) (List.length_take_le _ _)
    rcases hr : r.ptr with _ | dlg
    · have hlive : live ((r :: src).take (num + 1)) = live (src.take num) := by
        simp [live, hr]
      rw [hlive] at hroom ⊢
      rw [copyAndCompress, hr]
      have hsub : list.length - 1 - (num - (live (src.take num)).length)
          = list.length - (num + 1 - (live (src.take num)).length) := by omega
      exact (ih src { list with length := list.length - 1 } front back hlist hnum' hroom).trans
        (by rw [hsub])
    · have hlive : live ((r :: src).take (num + 1)) = dlg :: live (src.take num) := by
        simp [live, hr]
      rw [hlive] at hroom ⊢
      obtain _ | ⟨b, back⟩ := back
      · simp at hroom
      have hin : front.length < list.delegates.length := by
        rw [hlist, List.length_append, List.length_cons]
        omega
      have hset : list.delegates.set front.length (setObjectReference (some dlg))
          = (front ++ [setObjectReference (some dlg)]) ++ back := by
        rw [hlist]
        simp
      rw [copyAndCompress, hr]
      simp only [hin, if_true, hset]
      have hnext := ih src
        { list with delegates := (front ++ [setObjectReference (some dlg)]) ++ back }
        (front ++ [setObjectReference (some dlg)]) back rfl hnum' (by simpa using hroom)
      rw [List.length_append, List.length_singleton] at hnext
      rw [hnext, List.length_cons, Nat.add_sub_add_right, List.drop_succ_cons, references, references,
        List.map_cons]
      simp only [List.append_assoc, List.nil_append, List.cons_append, Nat.add_assoc,
        Nat.add_comm 1]

/-- How `Change` may end: it returns a value, or the memory for it is missing; what stood in the
    heap before is not touched. -/
inductive Outcome (s : Heap) (post : Reference → Heap → Prop) : Changed → Prop where
  | ok {r : Reference} {s' : Heap} : s'.Valid → Keeps s s' → IsValue s' r → post r s' →
      Outcome s post (.ok, r, s')
  | outOfMemory {r : Reference} {s' : Heap} : Keeps s s' →
      Outcome s post (.failed .outOfMemory, r, s')

theorem Outcome.mono {post post' : Reference → Heap → Prop} {c : Changed}
    (h : Outcome s post c)
    (hpost : ∀ r s', Keeps s s' → IsValue s' r → post r s' → post' r s') : Outcome s post' c := by
  cases h with
  | ok hv hk hr hp => exact .ok hv hk hr (hpost _ _ hk hr hp)
  | outOfMemory hk => exact .outOfMemory hk

structure NewList (ds : List Nat) (flags : UInt32) (r : Reference) (s : Heap) : Prop where
  isObject : r.isObject = true
  list : ∃ a list, r.ptr = some a ∧ s.objects a = some (.delegateList list)
    ∧ list.length = ds.length ∧ list.delegates.take list.length = references ds
    ∧ list.flags = flags

variable {flags : UInt32}

theorem NewList.invocation {ds : List Nat}
    (h : NewList ds flags r s) (hr : IsValue s r) : Delegates.invocation s r = ds := by
  obtain ⟨a, list, hptr, hlist, -, htake, -⟩ := h.list
  rw [hr.invocation, slots, hptr]
  simp only [hlist, htake, live_references]

variable {old : OldDelegates}

/-- A new list, once its slots are filled with delegates that stand in the heap -/
theorem changeList_spec (hs : s.Valid) (dlg : Delegate)
    {newNum : Nat} (fWeak : Bool) {fill : DelegateList → Option DelegateList} {ds : List Nat}
    (hflags : oldFlags old = some flags)
    (hds : ∀ d ∈ ds, ∃ x, s.objects d = some (.delegate x))
    (hfill : ∀ list : DelegateList, list.length = newNum → list.delegates.length = newNum →
      ∃ list', fill list = some list' ∧ list'.length = ds.length
        ∧ list'.delegates.take ds.length = references ds) :
    ∃ c, changeList s dlg old newNum fWeak fill = some c ∧
      Outcome s (NewList ds (if fWeak then flags ||| c_Weak else flags)) c := by
  by_cases hroom : 2 + newNum > HB_MaxSize ∨ 2 + newNum > s.room
  · refine ⟨_, ?_, Outcome.outOfMemory (r := setObjectReference none) (Keeps.refl s)⟩
    rw [changeList, Heap.createInstance, if_pos hroom]
  obtain ⟨list', hlist', hlength, htake⟩ := hfill
    { cls := dlg.cls, length := newNum, flags := 0, delegates := (List.range newNum).map s.garbage }
    rfl (by simp)
  have hkeeps (o : HeapObject) (s' : Heap)
      (hobj : s'.objects = Function.update s.objects s.next (some o)) : Keeps s s' := by
    intro a ha
    have hne : a ≠ s.next := by
      rintro rfl
      rw [hs s.next (Nat.le_refl _)] at ha
      cases ha
    rw [hobj, Function.update_of_ne hne]
  refine ⟨_, ?_, @Outcome.ok _ _ (setObjectReference (some s.next))
    { s with
      objects := Function.update s.objects s.next (some (.delegateList
        { list' with flags := if fWeak then flags ||| c_Weak else flags }))
      next := s.next + 1
      room := s.room - (2 + newNum) } ?_ (hkeeps _ _ rfl) ?_ ?_⟩
  · rw [changeList, Heap.createInstance, if_neg hroom]
    simp [Heap.delegateList, hlist', hflags, Heap.set]
  · intro a ha
    have hne : a ≠ s.next := by
      have : s.next + 1 ≤ a := ha
      omega
    exact (Function.update_of_ne hne _ _).trans (hs a (Nat.le_of_succ_le ha))
  · refine ⟨rfl, fun a ha => .inr ?_⟩
    cases ha
    refine ⟨_, Function.update_self _ _ _, ?_, ?_⟩
    · have hle := congrArg List.length htake
      rw [List.length_take, length_references] at hle
      change list'.length ≤ list'.delegates.length
      omega
    · intro r hr
      have hr' : r ∈ references ds := by
        rw [← htake, ← hlength]
        exact hr
      obtain ⟨d, hd, rfl⟩ := List.mem_map.mp hr'
      refine ⟨rfl, fun b hb => ?_⟩
      cases hb
      obtain ⟨x, hx⟩ := hds d hd
      exact ⟨x, (hkeeps _ _ rfl).objects hx⟩
  · refine ⟨rfl, s.next, _, rfl, Function.update_self _ _ _, hlength, ?_, rfl⟩
    change list'.delegates.take list'.length = references ds
    rw [hlength, htake]

/-! ### A delegate is added -/

/-- The old delegates are the slots of the source. -/
theorem oldDelegates_spec (h : IsValue s r) :
    ∃ old flags, oldDelegates s r = some (.ok old) ∧ oldFlags old = some flags
      ∧ old.oldNum = (slots s r).length ∧ old.oldDlgs.take old.oldNum = slots s r
      ∧ old.oldNum ≤ old.oldDlgs.length := by
  rcases hr : r.ptr with _ | a
  · refine ⟨{ oldDlgs := [], oldNum := 0, flags := none }, 0, ?_, rfl, ?_, ?_, ?_⟩ <;>
      simp [oldDelegates, slots, hr]
  rcases h.shape a hr with ⟨d, hd⟩ | ⟨list, hlist, hl⟩
  · refine ⟨{ oldDlgs := [r], oldNum := 1, flags := none }, 0, ?_, rfl, ?_, ?_, ?_⟩ <;>
      simp [oldDelegates, slots, hr, hd]
  · refine ⟨{ oldDlgs := list.delegates, oldNum := list.length, flags := some list.flags },
      if list.length > 1 then list.flags else 0, ?_, ?_, ?_, ?_, hl.length_le⟩
    · simp [oldDelegates, hr, hlist]
    · simp only [oldFlags]
      split <;> rfl
    · simp [slots, hr, hlist, hl.length_le]
    · simp [slots, hr, hlist]

theorem fill_append {src : List Reference} {num a : Nat} (hnum : num ≤ src.length)
    (list : DelegateList) (hlength : list.length = num + 1)
    (hroom : list.delegates.length = num + 1) :
    ∃ list', (do
        let (list, newDlgs) ← copyAndCompress num src list 0
        if newDlgs < list.delegates.length then
          some { list with delegates := list.delegates.set newDlgs (setObjectReference (some a)) }
        else none) = some list'
      ∧ list'.length = (live (src.take num) ++ [a]).length
      ∧ list'.delegates.take (live (src.take num) ++ [a]).length
          = references (live (src.take num) ++ [a]) := by
  have hcount : (live (src.take num)).length ≤ num :=
    Nat.le_trans (List.length_filterMap_le _ _) (List.length_take_le _ _)
  have hcopy := copyAndCompress_spec num src list [] list.delegates rfl hnum (by omega)
  rw [List.length_nil, Nat.zero_add, List.nil_append] at hcopy
  obtain ⟨x, back, hback⟩ : ∃ x back, list.delegates.drop (live (src.take num)).length = x :: back := by
    refine List.exists_cons_of_ne_nil fun hnil => ?_
    have hlen := congrArg List.length hnil
    rw [List.length_drop, List.length_nil] at hlen
    omega
  rw [hback] at hcopy
  refine ⟨{ list with
    length := list.length - (num - (live (src.take num)).length)
    delegates := (references (live (src.take num)) ++ x :: back).set (live (src.take num)).length
      (setObjectReference (some a)) }, ?_, ?_, ?_⟩
  · simp [hcopy]
  · simp only [List.length_append, List.length_singleton]
    omega
  · have hset := List.set_append_right (s := references (live (src.take num))) (t := x :: back)
      (live (src.take num)).length (setObjectReference (some a)) (by simp)
    rw [length_references, Nat.sub_self, List.set_cons_zero] at hset
    have happend : references (live (src.take num)) ++ setObjectReference (some a) :: back
        = references (live (src.take num) ++ [a]) ++ back := by
      simp [references]
    rw [hset, happend, List.take_left' (length_references _)]

theorem combineDelegate_spec (hs : s.Valid) {a : Nat}
    (hr : IsValue s r) (ha : s.objects a = some (.delegate d))
    (hflags : oldFlags old = some flags) (hnum : old.oldNum = (slots s r).length)
    (htake : old.oldDlgs.take old.oldNum = slots s r) (hle : old.oldNum ≤ old.oldDlgs.length)
    (fWeak : Bool) : ∃ c, combineDelegate s d (setObjectReference (some a)) old fWeak = some c ∧
      Outcome s (fun r' s' => invocation s' r' = invocation s r ++ [a]) c := by
  have hlive := hr.invocation
  by_cases hempty : old.oldNum = 0 ∧ fWeak = false
  · have hslots : slots s r = [] := List.length_eq_zero_iff.mp (by omega)
    have hvalue : IsValue s (setObjectReference (some a)) :=
      ⟨rfl, fun b hb => .inl ⟨d, by cases hb; exact ha⟩⟩
    refine ⟨_, if_pos hempty, .ok hs (Keeps.refl s) hvalue ?_⟩
    rw [hvalue.invocation, hlive, hslots]
    simp [slots, setObjectReference, ha, live]
  · have hds : ∀ b ∈ live (slots s r) ++ [a], ∃ x, s.objects b = some (.delegate x) := by
      intro b hb
      rcases List.mem_append.mp hb with hb | hb
      · exact IsSlot.live_isSome (fun x hx => hr.slot hx) b hb
      · rw [List.mem_singleton.mp hb]
        exact ⟨d, ha⟩
    rw [← htake] at hds hlive
    obtain ⟨c, hc, hout⟩ := changeList_spec hs d fWeak hflags hds fun list hlength hroom =>
      fill_append (a := a) hle list hlength hroom
    refine ⟨c, ?_, hout.mono fun r' s' _ hr' hnew => ?_⟩
    · rw [combineDelegate, if_neg hempty, hc]
    · rw [hnew.invocation hr', hlive]

/-! ### A delegate is removed -/

/-- The comparison of `Change`: the function and the object -/
def same (s : Heap) (dlg : Delegate) (a : Nat) : Bool :=
  match s.delegate a with
  | some d => d.ftn = dlg.ftn ∧ d.object = dlg.object
  | none => false

def slotSame (s : Heap) (dlg : Delegate) (r : Reference) : Bool :=
  r.ptr.any (same s dlg)

/-- The loop finds the first slot with an equal delegate, or the end. -/
theorem search_spec (dlg : Delegate) : ∀ (n num : Nat) (xs : List Reference),
    n ≤ xs.length → (∀ x ∈ xs.take n, IsSlot s x) →
    search s dlg n num xs = some (num + (xs.take n).findIdx (slotSame s dlg)) := by
  intro n
  induction n with
  | zero =>
    intro num xs _ _
    simp [search]
  | succ n ih =>
    intro num xs hn hslots
    obtain _ | ⟨x, xs⟩ := xs
    · simp at hn
    have hn' : n ≤ xs.length := by simpa using hn
    have hslots' : ∀ y ∈ xs.take n, IsSlot s y := fun y hy =>
      hslots y (by rw [List.take_succ_cons]; exact List.mem_cons_of_mem x hy)
    have hx : IsSlot s x := hslots x (by rw [List.take_succ_cons]; exact List.mem_cons_self)
    have hrest := ih (num + 1) xs hn' hslots'
    rw [List.take_succ_cons, List.findIdx_cons]
    rcases hptr : x.ptr with _ | a
    · have hno : slotSame s dlg x = false := by rw [slotSame, hptr]; rfl
      rw [search, hptr, hno]
      exact hrest.trans (by rw [cond_false, Nat.add_assoc, Nat.add_comm 1])
    · obtain ⟨d, hd⟩ := hx.delegate a hptr
      have hslot : slotSame s dlg x = same s dlg a := by rw [slotSame, hptr]; rfl
      have hdelegate := delegate_of_objects hd
      have hsame : same s dlg a = decide (d.ftn = dlg.ftn ∧ d.object = dlg.object) := by
        rw [same, hdelegate]
      rw [search, hptr, hslot, hsame]
      by_cases heq : d.ftn = dlg.ftn ∧ d.object = dlg.object
      · simp [hdelegate, heq]
      · simp only [hdelegate, Option.bind_eq_bind, Option.bind_some, if_neg heq]
        rw [decide_eq_false heq, cond_false, hrest, Nat.add_assoc, Nat.add_comm 1]

theorem live_eraseIdx (s : Heap) (dlg : Delegate) (xs : List Reference) :
    live (xs.eraseIdx (xs.findIdx (slotSame s dlg))) = (live xs).eraseP (same s dlg) := by
  induction xs with
  | nil => rfl
  | cons x xs ih =>
    rw [List.findIdx_cons]
    rcases hptr : x.ptr with _ | a
    · have hno : slotSame s dlg x = false := by rw [slotSame, hptr]; rfl
      have hskip (ys : List Reference) : live (x :: ys) = live ys := by simp [live, hptr]
      rw [hno, cond_false, List.eraseIdx_cons_succ, hskip, hskip, ih]
    · have hslot : slotSame s dlg x = same s dlg a := by rw [slotSame, hptr]; rfl
      have hkeep (ys : List Reference) : live (x :: ys) = a :: live ys := by simp [live, hptr]
      rw [hslot, hkeep]
      cases hsame : same s dlg a
      · rw [cond_false, List.eraseIdx_cons_succ, hkeep, ih, List.eraseP_cons_of_neg (by simp [hsame])]
      · rw [cond_true, List.eraseIdx_cons_zero, List.eraseP_cons_of_pos hsame]

theorem fill_remove {src : List Reference} {num oldNum : Nat} (hnum : num < oldNum)
    (hold : oldNum ≤ src.length) (list : DelegateList) (hlength : list.length = oldNum - 1)
    (hroom : list.delegates.length = oldNum - 1) :
    ∃ list', (do
        let (list, newDlgs) ← copyAndCompress num src list 0
        let (list, _) ← copyAndCompress (oldNum - (num + 1)) (src.drop (num + 1)) list newDlgs
        some list) = some list'
      ∧ list'.length = (live ((src.take oldNum).eraseIdx num)).length
      ∧ list'.delegates.take (live ((src.take oldNum).eraseIdx num)).length
          = references (live ((src.take oldNum).eraseIdx num)) := by
  obtain ⟨front, hfront⟩ : ∃ front, live (src.take num) = front := ⟨_, rfl⟩
  obtain ⟨back, hback⟩ : ∃ back, live ((src.drop (num + 1)).take (oldNum - (num + 1))) = back :=
    ⟨_, rfl⟩
  have herase : (src.take oldNum).eraseIdx num
      = src.take num ++ (src.drop (num + 1)).take (oldNum - (num + 1)) := by
    rw [List.eraseIdx_eq_take_drop_succ, List.take_take, Nat.min_eq_left (Nat.le_of_lt hnum),
      List.drop_take]
  have hds : live ((src.take oldNum).eraseIdx num) = front ++ back := by
    rw [herase, live_append, hfront, hback]
  have hfrontle : front.length ≤ num := by
    rw [← hfront]
    exact Nat.le_trans (List.length_filterMap_le _ _) (List.length_take_le _ _)
  have hbackle : back.length ≤ oldNum - (num + 1) := by
    rw [← hback]
    exact Nat.le_trans (List.length_filterMap_le _ _) (List.length_take_le _ _)
  have hcopy := copyAndCompress_spec num src list [] list.delegates rfl (by omega)
    (by rw [hfront]; omega)
  rw [hfront, List.length_nil, Nat.zero_add, List.nil_append] at hcopy
  have hcopy' := copyAndCompress_spec (oldNum - (num + 1)) (src.drop (num + 1))
    { list with
      length := list.length - (num - front.length)
      delegates := references front ++ list.delegates.drop front.length }
    (references front) (list.delegates.drop front.length) rfl
    (by rw [List.length_drop]; omega) (by rw [hback, List.length_drop]; omega)
  rw [hback, length_references] at hcopy'
  refine ⟨_, by simp only [hcopy, hcopy', Option.bind_eq_bind, Option.bind_some]; rfl, ?_, ?_⟩
  · rw [hds, List.length_append]
    simp only
    omega
  · have happend : references front ++ references back = references (front ++ back) := by
      simp [references]
    simp only [hds, happend]
    rw [List.take_left' (length_references _)]

def weak (s : Heap) (r : Reference) : Bool :=
  match r.ptr.bind s.delegateList with
  | some list => list.flags &&& c_Weak != 0
  | none => false

def Calls (s : Heap) (r : Reference) (dlg : Delegate) : Prop :=
  ∃ a ∈ invocation s r, same s dlg a = true

/-- What `Remove` returns for a source `r` and a delegate `dlg` -/
structure Removed (s : Heap) (r : Reference) (dlg : Delegate) (r' : Reference) (s' : Heap) :
    Prop where
  calls : invocation s' r' = (invocation s r).eraseP (same s dlg)
  missing : ¬Calls s r dlg → r' = r
  one : Calls s r dlg → (slots s r).length = 1 → r'.ptr = none
  two : Calls s r dlg → (slots s r).length = 2 → weak s r = false → r' ∈ slots s r
  list : Calls s r dlg → (slots s r).length ≠ 1 → (slots s r).length ≠ 2 ∨ weak s r = true →
    ∃ flags, NewList (invocation s' r') flags r' s' ∧ (flags &&& c_Weak != 0) = weak s r

theorem calls_iff (hr : IsValue s r) (dlg : Delegate) :
    Calls s r dlg ↔ (slots s r).findIdx (slotSame s dlg) < (slots s r).length := by
  rw [List.findIdx_lt_length, Calls, hr.invocation, live]
  constructor
  · rintro ⟨a, ha, hsame⟩
    obtain ⟨x, hx, hptr⟩ := List.mem_filterMap.mp ha
    exact ⟨x, hx, by rw [slotSame, hptr]; exact hsame⟩
  · rintro ⟨x, hx, hsame⟩
    rcases hptr : x.ptr with _ | a
    · rw [slotSame, hptr] at hsame
      cases hsame
    · rw [slotSame, hptr] at hsame
      exact ⟨a, List.mem_filterMap.mpr ⟨x, hx, hptr⟩, hsame⟩

theorem invocation_slot {x : Reference} (h : IsSlot s x) : invocation s x = live [x] := by
  rw [h.value.invocation]
  rcases hptr : x.ptr with _ | a
  · simp [slots, hptr, live]
  · obtain ⟨d, hd⟩ := h.delegate a hptr
    simp [slots, hptr, hd]

theorem flags_of_slots (hr : IsValue s r)
    (hold : oldDelegates s r = some (.ok old)) (htwo : 1 < (slots s r).length) :
    ∃ flags, old.flags = some flags ∧ (flags &&& c_Weak != 0) = weak s r := by
  rcases hptr : r.ptr with _ | a
  · simp [slots, hptr] at htwo
  rcases hr.shape a hptr with ⟨d, hd⟩ | ⟨list, hlist, -⟩
  · simp [slots, hptr, hd] at htwo
  · have hl : s.delegateList a = some list := by rw [Heap.delegateList, hlist]
    rw [oldDelegates, hptr] at hold
    simp only [hlist] at hold
    cases hold
    refine ⟨list.flags, rfl, ?_⟩
    rw [weak, hptr, Option.bind_some, hl]

/-- The source of `Remove`, its old delegates, and the place `num` at which the search ends -/
structure Searched (s : Heap) (r : Reference) (d : Delegate) (old : OldDelegates) (num : Nat) :
    Prop where
  value : IsValue s r
  old_eq : oldDelegates s r = some (.ok old)
  oldNum_eq : old.oldNum = (slots s r).length
  take_eq : old.oldDlgs.take old.oldNum = slots s r
  le_length : old.oldNum ≤ old.oldDlgs.length
  search_eq : search s d old.oldNum 0 old.oldDlgs = some num
  num_le : num ≤ old.oldNum
  calls : Calls s r d ↔ num < old.oldNum
  live_eq : live ((slots s r).eraseIdx num) = (invocation s r).eraseP (same s d)

theorem searched (d : Delegate) (hr : IsValue s r) (hold : oldDelegates s r = some (.ok old))
    (hnum : old.oldNum = (slots s r).length) (htake : old.oldDlgs.take old.oldNum = slots s r)
    (hle : old.oldNum ≤ old.oldDlgs.length) :
    Searched s r d old ((slots s r).findIdx (slotSame s d)) := by
  refine ⟨hr, hold, hnum, htake, hle, ?_, hnum ▸ List.findIdx_le_length, hnum ▸ calls_iff hr d, ?_⟩
  · have h := search_spec d old.oldNum 0 old.oldDlgs hle (by rw [htake]; exact fun x hx => hr.slot hx)
    rwa [htake, Nat.zero_add] at h
  · rw [hr.invocation]
    exact live_eraseIdx s d (slots s r)

variable {num : Nat}

/-- No slot has the delegate: the value is returned as it is. -/
theorem Searched.missing (h : Searched s r d old num) (hs : s.Valid) (hend : num = old.oldNum) :
    ∃ c, removeDelegate s d r old false = some c ∧ Outcome s (Removed s r d) c := by
  have hno : ¬Calls s r d := fun hcalls => Nat.lt_irrefl num (hend ▸ h.calls.mp hcalls)
  refine ⟨(.ok, r, s), ?_, .ok hs (Keeps.refl s) h.value ⟨?_, fun _ => rfl, ?_, ?_, ?_⟩⟩
  · rw [removeDelegate, h.search_eq]
    simp [hend]
  · have hnum := h.oldNum_eq
    rw [← h.live_eq, List.eraseIdx_of_length_le (by omega), h.value.invocation]
  all_goals exact fun hcalls => absurd hcalls hno

/-- The only delegate is removed: the value becomes NULL. -/
theorem Searched.only (h : Searched s r d old num) (hs : s.Valid) (hfound : num < old.oldNum)
    (hone : old.oldNum = 1) :
    ∃ c, removeDelegate s d r old false = some c ∧ Outcome s (Removed s r d) c := by
  have hnum := h.oldNum_eq
  have hnil : (slots s r).eraseIdx num = [] := by
    refine List.length_eq_zero_iff.mp ?_
    rw [List.length_eraseIdx_of_lt (by omega)]
    omega
  have hseq : invocation s (setObjectReference none) = (invocation s r).eraseP (same s d) := by
    rw [← h.live_eq, hnil]
    rfl
  refine ⟨(.ok, setObjectReference none, s), ?_, .ok hs (Keeps.refl s) (IsValue.null s)
    ⟨hseq, fun hno => absurd (h.calls.mpr hfound) hno, fun _ _ => rfl, ?_, ?_⟩⟩
  · rw [removeDelegate, h.search_eq]
    simp only [Option.bind_eq_bind, Option.bind_some, if_neg (Nat.ne_of_lt hfound),
      if_neg (show old.oldNum ≠ 2 by omega), if_pos hone]
    rfl
  · intro _ htwo
    omega
  · intro _ hnot
    exact absurd (hnum.symm.trans hone) hnot

/-- Of two slots in a list that is not weak the other one is returned. -/
theorem Searched.other (h : Searched s r d old num) (hs : s.Valid) (hfound : num < old.oldNum)
    (htwo : old.oldNum = 2) {flags : UInt32} (hflags : old.flags = some flags)
    (hstrong : (flags &&& c_Weak == 0) = true) (hweak : (flags &&& c_Weak != 0) = weak s r) :
    ∃ c, removeDelegate s d r old false = some c ∧ Outcome s (Removed s r d) c := by
  have hnum := h.oldNum_eq
  obtain ⟨x, hx, hother⟩ : ∃ x, old.oldDlgs[1 - num]? = some x ∧
      (slots s r).eraseIdx num = [x] := by
    have hget := List.getElem?_take_of_lt (l := old.oldDlgs) (i := 1 - num) (j := old.oldNum)
      (by omega)
    rw [h.take_eq] at hget
    rw [← hget]
    obtain ⟨x, y, hxy⟩ := List.length_eq_two.mp (hnum.symm.trans htwo)
    rw [hxy]
    obtain rfl | rfl : num = 0 ∨ num = 1 := by omega
    · exact ⟨y, rfl, rfl⟩
    · exact ⟨x, rfl, rfl⟩
  have hmem : x ∈ slots s r :=
    List.mem_of_mem_eraseIdx (i := num) (by rw [hother]; exact List.mem_singleton_self x)
  refine ⟨(.ok, x, s), ?_, .ok hs (Keeps.refl s) (h.value.slot hmem).value
    ⟨?_, fun hno => absurd (h.calls.mpr hfound) hno, ?_, fun _ _ _ => hmem, ?_⟩⟩
  · rw [removeDelegate, h.search_eq]
    simp only [Option.bind_eq_bind, Option.bind_some, if_neg (Nat.ne_of_lt hfound), if_pos htwo,
      hflags, if_pos hstrong, hx]
  · rw [← h.live_eq, hother, invocation_slot (h.value.slot hmem)]
  · intro _ hone
    omega
  · rintro _ _ (hlength | hisWeak)
    · omega
    · rw [← hweak] at hisWeak
      simp_all

/-- Otherwise the other slots go to a new list. -/
theorem Searched.several (h : Searched s r d old num) (hs : s.Valid) (hfound : num < old.oldNum)
    (hseveral : 1 < old.oldNum) {flags : UInt32} (hflags : old.flags = some flags)
    (hnot : ¬(old.oldNum = 2 ∧ (flags &&& c_Weak == 0) = true))
    (hweak : (flags &&& c_Weak != 0) = weak s r) :
    ∃ c, removeDelegate s d r old false = some c ∧ Outcome s (Removed s r d) c := by
  have hnum := h.oldNum_eq
  have hds : ∀ b ∈ live ((old.oldDlgs.take old.oldNum).eraseIdx num),
      ∃ x, s.objects b = some (.delegate x) := by
    rw [h.take_eq]
    exact IsSlot.live_isSome fun x hx => h.value.slot (List.mem_of_mem_eraseIdx hx)
  obtain ⟨c, hc, hout⟩ := changeList_spec hs d false ((if_pos hseveral).trans hflags) hds
    fun list hlength hroom => fill_remove hfound h.le_length list hlength hroom
  refine ⟨c, ?_, hout.mono fun r' s' _ hr' hnew => ?_⟩
  · rw [removeDelegate, h.search_eq]
    simp only [Option.bind_eq_bind, Option.bind_some, if_neg (Nat.ne_of_lt hfound), hflags]
    by_cases htwo : old.oldNum = 2
    · have hisWeak : (flags &&& c_Weak == 0) = false :=
        Bool.eq_false_iff.mpr fun hf => hnot ⟨htwo, hf⟩
      rw [if_pos htwo, hisWeak, if_neg (by simp), if_neg (by omega)]
      exact hc
    · rw [if_neg htwo, if_neg (by simp), if_neg (by omega)]
      exact hc
  · have hseq := hnew.invocation hr'
    rw [h.take_eq, h.live_eq] at hseq
    refine ⟨hseq, fun hno => absurd (h.calls.mpr hfound) hno, ?_, ?_, ?_⟩
    · intro _ hone
      omega
    · intro _ htwo hnotWeak
      refine absurd ⟨hnum.trans htwo, ?_⟩ hnot
      rw [← hweak] at hnotWeak
      simpa using hnotWeak
    · intro _ _ _
      refine ⟨flags, ?_, hweak⟩
      rw [hseq, ← h.live_eq, ← h.take_eq]
      exact hnew

theorem removeDelegate_spec (hs : s.Valid) (d : Delegate) (hr : IsValue s r)
    (hold : oldDelegates s r = some (.ok old)) (hnum : old.oldNum = (slots s r).length)
    (htake : old.oldDlgs.take old.oldNum = slots s r) (hle : old.oldNum ≤ old.oldDlgs.length) :
    ∃ c, removeDelegate s d r old false = some c ∧ Outcome s (Removed s r d) c := by
  have h := searched d hr hold hnum htake hle
  rcases Nat.eq_or_lt_of_le h.num_le with hend | hfound
  · exact h.missing hs hend
  by_cases hseveral : 1 < old.oldNum
  · obtain ⟨flags, hflags, hweak⟩ := flags_of_slots hr hold (hnum ▸ hseveral)
    by_cases hstrong : old.oldNum = 2 ∧ (flags &&& c_Weak == 0) = true
    · exact h.other hs hfound hstrong.1 hflags hstrong.2 hweak
    · exact h.several hs hfound hseveral hflags hstrong hweak
  · exact h.only hs hfound (by omega)

/-! ### Whole values -/

theorem Outcome.after {s₁ : Heap} {post : Reference → Heap → Prop} {c : Changed}
    (h : Outcome s₁ post c) (hk : Keeps s s₁) : Outcome s post c := by
  cases h with
  | ok hv hk' hr hp => exact .ok hv (hk.trans hk') hr hp
  | outOfMemory hk' => exact .outOfMemory (hk.trans hk')

variable {target : Reference}

theorem change_delegate {src : Reference} {a : Nat}
    (hsrc : IsValue s src) (htarget : target = setObjectReference (some a))
    (ha : s.objects a = some (.delegate d))
    (hold : oldDelegates s src = some (.ok old)) (fCombine fWeak : Bool) (depth : Nat) :
    change fCombine fWeak (depth + 1) s src target =
      if fCombine then combineDelegate s d target old fWeak
      else removeDelegate s d src old fWeak := by
  subst htarget
  rw [change, if_neg (by simp [hsrc.isObject, setObjectReference])]
  simp only [setObjectReference, ha, hold, Option.bind_eq_bind, Option.bind_some]

theorem combine_delegate (hs : s.Valid) {src : Reference} {a : Nat}
    (hsrc : IsValue s src) (htarget : target = setObjectReference (some a))
    (ha : s.objects a = some (.delegate d)) (fWeak : Bool) (depth : Nat) :
    ∃ c, change true fWeak (depth + 1) s src target = some c ∧
      Outcome s (fun r' s' => invocation s' r' = invocation s src ++ [a]) c := by
  obtain ⟨old, flags, hold, hflags, hnum, htake, hle⟩ := oldDelegates_spec hsrc
  obtain ⟨c, hc, hout⟩ := combineDelegate_spec hs hsrc ha hflags hnum htake hle fWeak
  refine ⟨c, ?_, hout⟩
  rw [change_delegate hsrc htarget ha hold, if_pos rfl, htarget, hc]

theorem remove_delegate (hs : s.Valid) {src : Reference} {a : Nat}
    (hsrc : IsValue s src) (htarget : target = setObjectReference (some a))
    (ha : s.objects a = some (.delegate d)) (depth : Nat) :
    ∃ c, remove (depth + 1) s src target = some c ∧ Outcome s (Removed s src d) c := by
  obtain ⟨old, flags, hold, hflags, hnum, htake, hle⟩ := oldDelegates_spec hsrc
  obtain ⟨c, hc, hout⟩ := removeDelegate_spec hs d hsrc hold hnum htake hle
  refine ⟨c, ?_, hout⟩
  rw [remove, change_delegate hsrc htarget ha hold, if_neg (by simp), hc]

/-- The loop over the delegates of a list: those that are still there are added one by one; when
    there is none, `reference` is what it was. -/
theorem changeEach_spec {addr : Nat} {list : DelegateList} (hle : list.length ≤ list.delegates.length)
    (fWeak : Bool) (depth : Nat) : ∀ (left num : Nat) (s : Heap) (reference intermediate : Reference),
    left + num = list.length → s.Valid → s.objects addr = some (.delegateList list) →
    (∀ r ∈ list.delegates.take list.length, IsSlot s r) → IsValue s reference →
    IsValue s intermediate →
    ∃ c, changeEach (change true fWeak (depth + 1)) addr left num s reference intermediate = some c ∧
      Outcome s (fun r' s' => (live ((list.delegates.take list.length).drop num) = [] → r' = reference)
        ∧ (live ((list.delegates.take list.length).drop num) ≠ [] → invocation s' r'
          = invocation s intermediate ++ live ((list.delegates.take list.length).drop num))) c := by
  intro left
  induction left with
  | zero =>
    intro num s reference intermediate hnum hs _ _ hreference _
    have hnil : (list.delegates.take list.length).drop num = [] :=
      List.drop_of_length_le (by rw [List.length_take]; omega)
    refine ⟨_, rfl, .ok hs (Keeps.refl s) hreference ⟨fun _ => rfl, fun h => ?_⟩⟩
    rw [hnil] at h
    exact absurd rfl h
  | succ left ih =>
    intro num s reference intermediate hnum hs haddr hslots hreference hintermediate
    have hlt : num < (list.delegates.take list.length).length := by
      rw [List.length_take]
      omega
    obtain ⟨x, hx⟩ : ∃ x, (list.delegates.take list.length)[num] = x := ⟨_, rfl⟩
    have hget : list.delegates[num]? = some x := by
      rw [← List.getElem?_take_of_lt (show num < list.length by omega), List.getElem?_eq_getElem hlt,
        hx]
    have hdrop : (list.delegates.take list.length).drop num
        = x :: (list.delegates.take list.length).drop (num + 1) := by
      rw [List.drop_eq_getElem_cons hlt, hx]
    have hslot : IsSlot s x := hslots x (hx ▸ List.getElem_mem hlt)
    have hlist : s.delegateList addr = some list := by rw [Heap.delegateList, haddr]
    rw [changeEach, hlist, hdrop]
    simp only [Option.bind_eq_bind, Option.bind_some, hget, hslot.isObject, Bool.true_and]
    rcases hptr : x.ptr with _ | a
    · have hlive : live (x :: (list.delegates.take list.length).drop (num + 1))
          = live ((list.delegates.take list.length).drop (num + 1)) := by simp [live, hptr]
      rw [hlive, if_neg (by simp)]
      exact ih (num + 1) s reference intermediate (by omega) hs haddr hslots hreference hintermediate
    · obtain ⟨d, hd⟩ := hslot.delegate a hptr
      have htarget : x = setObjectReference (some a) := by
        obtain ⟨isObject, ptr⟩ := x
        cases hslot.isObject
        cases hptr
        rfl
      have hlive : live (x :: (list.delegates.take list.length).drop (num + 1))
          = a :: live ((list.delegates.take list.length).drop (num + 1)) := by simp [live, hptr]
      obtain ⟨c, hc, hout⟩ := combine_delegate hs hintermediate htarget hd fWeak depth
      rw [if_pos (by rfl), hc, hlive]
      cases hout with
      | outOfMemory hk => exact ⟨_, rfl, .outOfMemory hk⟩
      | @ok r' s' hs' hk hr' hseq =>
        obtain ⟨c', hc', hout'⟩ := ih (num + 1) s' r' r' (by omega) hs' (hk.objects haddr)
          (fun y hy => (hslots y hy).keeps hk) hr' hr'
        refine ⟨c', hc', (hout'.mono fun r'' s'' hk' hr'' hpost => ?_).after hk⟩
        refine ⟨fun h => (List.cons_ne_nil _ _ h).elim, fun _ => ?_⟩
        by_cases hnil : live ((list.delegates.take list.length).drop (num + 1)) = []
        · rw [hpost.1 hnil, hr'.invocation_keeps hk', hseq, hnil]
        · rw [hpost.2 hnil, hseq, List.append_assoc, List.singleton_append]

/-- `Combine`, unless the second value is a list of which nothing is left -/
theorem combine_spec (hs : s.Valid) {a b : Reference} (ha : IsValue s a)
    (hb : IsValue s b) (hleft : b.ptr ≠ none → invocation s b ≠ []) (fWeak : Bool) (depth : Nat) :
    ∃ c, combine (depth + 2) s a b fWeak = some c ∧
      Outcome s (fun r s' => invocation s' r = invocation s a ++ invocation s b) c := by
  have hobject : ¬(a.isObject = false ∨ b.isObject = false) := by
    simp [ha.isObject, hb.isObject]
  have hseqb := hb.invocation
  rcases hptr : b.ptr with _ | addr
  · have hnil : invocation s b = [] := by rw [invocation, hptr]
    have hvalue : IsValue s (setObjectReference a.ptr) := ⟨rfl, ha.shape⟩
    have heq : setObjectReference a.ptr = a := by
      obtain ⟨isObject, ptr⟩ := a
      cases ha.isObject
      rfl
    refine ⟨(.ok, setObjectReference a.ptr, s), ?_, .ok hs (Keeps.refl s) hvalue ?_⟩
    · rw [combine, change, if_neg hobject, hptr]
    · rw [heq, hnil, List.append_nil]
  rcases hb.shape addr hptr with ⟨d, hd⟩ | ⟨list, hlist, hl⟩
  · have htarget : b = setObjectReference (some addr) := by
      obtain ⟨isObject, ptr⟩ := b
      cases hb.isObject
      cases hptr
      rfl
    have hone : invocation s b = [addr] := by
      rw [hseqb, slots, hptr]
      simp [hd, live, hptr]
    obtain ⟨c, hc, hout⟩ := combine_delegate hs ha htarget hd fWeak (depth + 1)
    exact ⟨c, hc, by rwa [hone]⟩
  · have hslots : slots s b = list.delegates.take list.length := by
      rw [slots, hptr]
      simp only [hlist]
    have hne := hleft (by rw [hptr]; simp)
    rw [hseqb, hslots] at hne
    obtain ⟨c, hc, hout⟩ := changeEach_spec hl.length_le fWeak depth list.length 0 s
      (setObjectReference none) a rfl hs hlist hl.slots (IsValue.null s) ha
    refine ⟨c, ?_, hout.mono fun r' s' _ _ hpost => ?_⟩
    · rw [combine, change, if_neg hobject, hptr]
      simp only [hlist]
      exact hc
    · rw [List.drop_zero] at hpost
      rw [hseqb, hslots]
      exact hpost.2 hne

theorem calls_keeps (hr : IsValue s r) (hk : Keeps s s')
    (dlg : Delegate) {a : Nat} (ha : a ∈ invocation s r) : same s' dlg a = same s dlg a := by
  rw [hr.invocation] at ha
  obtain ⟨d, hd⟩ := IsSlot.live_isSome (fun x hx => hr.slot hx) a ha
  rw [same, same, delegate_of_objects hd, delegate_of_objects (hk.objects hd)]

/-- `Combine` and `Remove` on delegate values.  A value that `Combine` is given as its second one
    is not a list of which nothing is left. -/
theorem delegate_algebra {s : Heap} (hs : s.Valid) {a b : Reference} (ha : IsValue s a)
    (hb : IsValue s b) (depth : Nat) :
    ((b.ptr ≠ none → invocation s b ≠ []) → ∀ fWeak, ∃ c, combine (depth + 2) s a b fWeak = some c ∧
      Outcome s (fun r s' => invocation s' r = invocation s a ++ invocation s b) c)
    ∧ ∀ dlg d, b.ptr = some dlg → s.objects dlg = some (.delegate d) →
      (∃ c, remove (depth + 2) s a b = some c ∧ Outcome s (Removed s a d) c)
      ∧ (¬Calls s a d → ∀ fWeak r s', combine (depth + 2) s a b fWeak = some (.ok, r, s') →
          ∃ c, remove (depth + 2) s' r b = some c ∧
            Outcome s' (fun r' s'' => invocation s'' r' = invocation s a) c) := by
  refine ⟨fun hleft fWeak => combine_spec hs ha hb hleft fWeak depth, fun dlg d hptr hd => ?_⟩
  have htarget : b = setObjectReference (some dlg) := by
    obtain ⟨isObject, ptr⟩ := b
    cases hb.isObject
    cases hptr
    rfl
  refine ⟨remove_delegate hs ha htarget hd (depth + 1), fun hno fWeak r s' hc => ?_⟩
  obtain ⟨c, hc', hout⟩ := combine_delegate hs ha htarget hd fWeak (depth + 1)
  have hsome : some c = some (.ok, r, s') := hc'.symm.trans hc
  cases Option.some.inj hsome
  obtain ⟨hs', hk, hr, hseq⟩ : s'.Valid ∧ Keeps s s' ∧ IsValue s' r
      ∧ invocation s' r = invocation s a ++ [dlg] := by
    cases hout with
    | ok hv hk hr hseq => exact ⟨hv, hk, hr, hseq⟩
  obtain ⟨c', hremove, hout'⟩ := remove_delegate hs' hr htarget (hk.objects hd) (depth + 1)
  refine ⟨c', hremove, hout'.mono fun r' s'' _ _ hremoved => ?_⟩
  have hself : same s' d dlg = true := by
    rw [same, delegate_of_objects (hk.objects hd)]
    simp
  have hnone : ∀ x ∈ invocation s a, ¬same s' d x = true := by
    intro x hx hsame
    rw [calls_keeps ha hk d hx] at hsame
    exact hno ⟨x, hx, hsame⟩
  rw [hremoved.calls, hseq, List.eraseP_append_right _ hnone, List.eraseP_cons_of_pos hself,
    List.append_nil]

/-! ### A weak list of two -/

def weakPair : Heap where
  objects := fun a =>
    if a = 0 then some (.delegate { cls := 1, ftn := 10, object := none })
    else if a = 1 then some (.delegate { cls := 1, ftn := 11, object := none })
    else if a = 2 then some (.delegateList
      { cls := 1, length := 2, flags := c_Weak
        delegates := [setObjectReference (some 0), setObjectReference (some 1)] })
    else none
  next := 3
  room := 100
  garbage := fun _ => setObjectReference none

theorem weakPair_valid : weakPair.Valid := by
  intro a ha
  have hle : 3 ≤ a := ha
  simp only [weakPair]
  rw [if_neg (by omega), if_neg (by omega), if_neg (by omega)]

theorem weakPair_delegate {a : Nat} (ha : a = 0 ∨ a = 1) :
    IsValue weakPair (setObjectReference (some a)) := by
  refine ⟨rfl, fun b hb => .inl ?_⟩
  cases hb
  rcases ha with rfl | rfl
  · exact ⟨_, rfl⟩
  · exact ⟨_, rfl⟩

theorem weakPair_list : IsValue weakPair (setObjectReference (some 2)) := by
  refine ⟨rfl, fun b hb => .inr ?_⟩
  cases hb
  refine ⟨_, rfl, by decide, fun r hr => ?_⟩
  have hcases : r = setObjectReference (some 0) ∨ r = setObjectReference (some 1) := by
    simpa using hr
  rcases hcases with rfl | rfl
  · exact ⟨rfl, fun b hb => by cases hb; exact ⟨_, rfl⟩⟩
  · exact ⟨rfl, fun b hb => by cases hb; exact ⟨_, rfl⟩⟩

/-- The pair with its first delegate removed -/
theorem delegate_algebra_weakPair :
    ∃ c, remove 2 weakPair (setObjectReference (some 2)) (setObjectReference (some 0)) = some c ∧
      Outcome weakPair (Removed weakPair (setObjectReference (some 2))
        { cls := 1, ftn := 10, object := none }) c :=
  ((delegate_algebra weakPair_valid weakPair_list (weakPair_delegate (.inl rfl)) 0).2 0 _ rfl rfl).1

/-- One delegate remains, in a list of its own. -/
theorem weakPair_remains : IsValue weakPair (setObjectReference (some 2))
    ∧ (remove 2 weakPair (setObjectReference (some 2)) (setObjectReference (some 0))).map
        (fun c => (c.1, c.2.1, invocation c.2.2 c.2.1, c.2.2.delegate 3))
      = some (.ok, setObjectReference (some 3), [1], none) :=
  ⟨weakPair_list, by rfl⟩

end TinyClr.Delegates
