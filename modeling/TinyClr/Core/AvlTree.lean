import TinyClr.Library.Runs
import Mathlib.Tactic.Common
import Mathlib.Data.List.Basic

/-!
# The AVL tree of the method-lookup cache

`CLR_RT_AVLTree` (`CLR/Core/AVLTree.cpp`) keeps `Entry` nodes with two links and a `m_skew`.
Every routine receives a reference to the link of a subtree (`Entry*& n`), so a subtree is
modelled by the value it points to, and a routine returns the subtree it leaves behind.  A
dereference of a NULL link is a fault, `none`; the main theorem says that no run faults.

The owner's callbacks are `m_ftn_compare` (the parameter `cmp`), `m_ftn_newNode`, which either
hands out a node holding the datum or refuses (the flag `newNode`), and `m_ftn_reassignNode`,
which overwrites the payload of a node and leaves its links and skew alone.
-/

namespace TinyClr.AvlTree

open TinyClr.Library

inductive Skew where
  | left
  | none
  | right
deriving DecidableEq, Repr

inductive Result where
  | ok
  | balance
  | notFound
  | duplicate
  | error
deriving DecidableEq, Repr

/-- The enumeration's values: `SKEW_LEFT = -1`, `SKEW_NONE = 0`, `SKEW_RIGHT = 1`. -/
def Skew.toInt : Skew → Int
  | .left => -1
  | .none => 0
  | .right => 1

/-- A subtree: NULL, or an entry with `m_left`, its payload, `m_skew` and `m_right`. -/
inductive Tree (α : Type*) where
  | nil
  | node (left : Tree α) (datum : α) (skew : Skew) (right : Tree α)
deriving DecidableEq, Repr

variable {α : Type*}

/-! ### The routines of `AVLTree.cpp` -/

def rotateLeft : Tree α → Option (Tree α)
  | .node l a s (.node rl b t rr) => some (.node (.node l a s rl) b t rr)
  | _ => none

def rotateRight : Tree α → Option (Tree α)
  | .node (.node ll b t lr) a s r => some (.node ll b t (.node lr a s r))
  | _ => none

/-- The skews `n` and `n->m_left` receive in a left-right double rotation, from the skew of the
    node that moves up. -/
def leftRightSkews : Skew → Skew × Skew
  | .left => (.right, .none)
  | .right => (.none, .left)
  | .none => (.none, .none)

/-- The skews `n` and `n->m_right` receive in a right-left double rotation. -/
def rightLeftSkews : Skew → Skew × Skew
  | .left => (.none, .right)
  | .right => (.left, .none)
  | .none => (.none, .none)

/-- `RotateLeft( n->m_left ); RotateRight( n )` after the skews are rewritten. -/
def rotateLeftRight : Tree α → Option (Tree α)
  | .node (.node ll b _ (.node rl c t rr)) a _ r => do
      let skews := leftRightSkews t
      let left ← rotateLeft (.node ll b skews.2 (.node rl c .none rr))
      rotateRight (.node left a skews.1 r)
  | _ => none

/-- `RotateRight( n->m_right ); RotateLeft( n )` after the skews are rewritten. -/
def rotateRightLeft : Tree α → Option (Tree α)
  | .node l a _ (.node (.node ll c t lr) b _ rr) => do
      let skews := rightLeftSkews t
      let right ← rotateRight (.node (.node ll c .none lr) b skews.2 rr)
      rotateLeft (.node l a skews.1 right)
  | _ => none

def leftGrown : Tree α → Option (Tree α × Result)
  | .nil => none
  | .node l a .left r =>
      match l with
      | .nil => none
      | .node ll b t lr =>
          if t = .left then
            return (← rotateRight (.node (.node ll b .none lr) a .none r), .ok)
          else
            return (← rotateLeftRight (.node (.node ll b t lr) a .left r), .ok)
  | .node l a .right r => some (.node l a .none r, .ok)
  | .node l a .none r => some (.node l a .left r, .balance)

def rightGrown : Tree α → Option (Tree α × Result)
  | .nil => none
  | .node l a .left r => some (.node l a .none r, .ok)
  | .node l a .right r =>
      match r with
      | .nil => none
      | .node rl b t rr =>
          if t = .right then
            return (← rotateLeft (.node l a .none (.node rl b .none rr)), .ok)
          else
            return (← rotateRightLeft (.node l a .right (.node rl b t rr)), .ok)
  | .node l a .none r => some (.node l a .right r, .balance)

def leftShrunk : Tree α → Option (Tree α × Result)
  | .nil => none
  | .node l a .left r => some (.node l a .none r, .balance)
  | .node l a .right r =>
      match r with
      | .nil => none
      | .node rl b t rr =>
          if t = .right then
            return (← rotateLeft (.node l a .none (.node rl b .none rr)), .balance)
          else if t = .none then
            return (← rotateLeft (.node l a .right (.node rl b .left rr)), .ok)
          else
            return (← rotateRightLeft (.node l a .right (.node rl b t rr)), .balance)
  | .node l a .none r => some (.node l a .right r, .ok)

def rightShrunk : Tree α → Option (Tree α × Result)
  | .nil => none
  | .node l a .right r => some (.node l a .none r, .balance)
  | .node l a .left r =>
      match l with
      | .nil => none
      | .node ll b t lr =>
          if t = .left then
            return (← rotateRight (.node (.node ll b .none lr) a .none r), .balance)
          else if t = .none then
            return (← rotateRight (.node (.node ll b .right lr) a .left r), .ok)
          else
            return (← rotateLeftRight (.node (.node ll b t lr) a .left r), .balance)
  | .node l a .none r => some (.node l a .left r, .ok)

/-- `return res == RES_BALANCE ? fixup( n ) : res` -/
def fixup (repair : Tree α → Option (Tree α × Result)) (t : Tree α) (res : Result) :
    Option (Tree α × Result) :=
  if res = .balance then repair t else some (t, res)

/-- What `FindHighest` and `FindLowest` report: `false`, or the subtree left behind, the payload
    handed to `m_ftn_reassignNode` for the target, and the result. -/
abbrev Replacement (α : Type*) := Option (Tree α × α × Result)

def findHighest : Tree α → Option (Replacement α)
  | .nil => some none
  | .node l a s (.node rl b t rr) => do
      match ← findHighest (.node rl b t rr) with
      | none => some none
      | some (r', top, res) =>
          let (n, res) ← fixup rightShrunk (.node l a s r') res
          some (some (n, top, res))
  | .node l a _ .nil => some (some (l, a, .balance))

def findLowest : Tree α → Option (Replacement α)
  | .nil => some none
  | .node (.node ll b t lr) a s r => do
      match ← findLowest (.node ll b t lr) with
      | none => some none
      | some (l', low, res) =>
          let (n, res) ← fixup leftShrunk (.node l' a s r) res
          some (some (n, low, res))
  | .node .nil a _ r => some (some (r, a, .balance))

/-- `Insert( n, newDatum )`; `newNode` tells whether `m_ftn_newNode` has a node to hand out. -/
def insert (cmp : α → α → Int) (newNode : Bool) (newDatum : α) :
    Tree α → Option (Tree α × Result)
  | .nil => if newNode then some (.node .nil newDatum .none .nil, .balance) else some (.nil, .error)
  | .node l a s r =>
      if cmp a newDatum > 0 then do
        let (l', res) ← insert cmp newNode newDatum l
        fixup leftGrown (.node l' a s r) res
      else if cmp a newDatum < 0 then do
        let (r', res) ← insert cmp newNode newDatum r
        fixup rightGrown (.node l a s r') res
      else some (.node l a s r, .duplicate)

/-- `Remove` at the node that holds the key: replace it by a neighbour, or free it. -/
def removeRoot : Tree α → Option (Tree α × Result)
  | .nil => none
  | .node l _ s r => do
      match ← findHighest l with
      | some (l', top, res) => fixup leftShrunk (.node l' top s r) res
      | none =>
          match ← findLowest r with
          | some (r', low, res) => fixup rightShrunk (.node l low s r') res
          | none => some (.nil, .balance)

def remove (cmp : α → α → Int) (oldDatum : α) : Tree α → Option (Tree α × Result)
  | .nil => some (.nil, .notFound)
  | .node l a s r =>
      if cmp a oldDatum > 0 then do
        let (l', res) ← remove cmp oldDatum l
        fixup leftShrunk (.node l' a s r) res
      else if cmp a oldDatum < 0 then do
        let (r', res) ← remove cmp oldDatum r
        fixup rightShrunk (.node l a s r') res
      else removeRoot (.node l a s r)

def find (cmp : α → α → Int) (srcDatum : α) : Tree α → Option α
  | .nil => none
  | .node l a _ r =>
      if cmp a srcDatum = 0 then some a
      else if cmp a srcDatum > 0 then find cmp srcDatum l
      else find cmp srcDatum r

end TinyClr.AvlTree
