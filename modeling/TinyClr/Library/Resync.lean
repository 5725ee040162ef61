import Mathlib.Data.List.Infix

/-!
# Synchronising on a prefix-closed pattern

A receiver that looks for the start of a message drops elements from the front of what it holds
until the rest could be the beginning of one.  `resync ok` is that rest: the longest suffix that
`ok` accepts.  When `ok` is closed under taking prefixes, what is kept does not depend on how the
input was cut up.
-/

namespace TinyClr.Library

variable {α : Type*} (ok : List α → Bool)

/-- The longest suffix `ok` accepts. -/
def resync : List α → List α
  | [] => []
  | a :: xs => if ok (a :: xs) then a :: xs else resync xs

/-- What is accepted is accepted up to any earlier point, down to one element. -/
def PrefixClosed : Prop := ∀ xs ys : List α, xs ≠ [] → ok (xs ++ ys) = true → ok xs = true

theorem resync_suffix (xs : List α) : resync ok xs <:+ xs := by
  induction xs with
  | nil => exact List.suffix_refl _
  | cons a xs ih =>
    rw [resync]
    split_ifs
    · exact List.suffix_refl _
    · exact ih.trans (List.suffix_cons a xs)

theorem length_resync_le (xs : List α) : (resync ok xs).length ≤ xs.length :=
  (resync_suffix ok xs).length_le

theorem resync_accepted (xs : List α) : resync ok xs = [] ∨ ok (resync ok xs) = true := by
  induction xs with
  | nil => exact Or.inl rfl
  | cons a xs ih =>
    rw [resync]
    split_ifs with h
    · exact Or.inr h
    · exact ih

theorem resync_eq_self {xs : List α} (h : ok xs = true) : resync ok xs = xs := by
  cases xs with
  | nil => rfl
  | cons a xs => rw [resync, if_pos h]

/-- No accepted suffix is longer. -/
theorem length_le_resync {xs ys : List α} (hsuffix : ys <:+ xs) (h : ok ys = true) :
    ys.length ≤ (resync ok xs).length := by
  induction xs with
  | nil => exact hsuffix.length_le
  | cons a xs ih =>
    rw [resync]
    split_ifs with hok
    · exact hsuffix.length_le
    · rcases List.suffix_cons_iff.mp hsuffix with rfl | hsuffix
      · exact absurd h hok
      · exact ih hsuffix

/-- Two suffixes of one list are equal if they are equally long. -/
theorem eq_of_suffix {xs ys zs : List α} (hy : ys <:+ xs) (hz : zs <:+ xs)
    (hlength : ys.length = zs.length) : ys = zs := by
  rw [List.suffix_iff_eq_drop.mp hy, List.suffix_iff_eq_drop.mp hz, hlength]

/-- Synchronising in two steps is synchronising once. -/
theorem resync_append (hclosed : PrefixClosed ok) (xs ys : List α) :
    resync ok (resync ok xs ++ ys) = resync ok (xs ++ ys) := by
  induction xs with
  | nil => rfl
  | cons a xs ih =>
    by_cases hok : ok (a :: xs) = true
    · rw [resync_eq_self ok hok]
    · have hlong : ¬ ok (a :: (xs ++ ys)) = true :=
        fun h => hok (hclosed (a :: xs) ys (List.cons_ne_nil _ _) h)
      rw [resync, if_neg hok, ih, List.cons_append, resync, if_neg hlong]

end TinyClr.Library
