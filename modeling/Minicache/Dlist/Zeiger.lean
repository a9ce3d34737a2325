/-
  File:      Minicache/Dlist/Zeiger.lean
  Subject:   The intrusive doubly linked list of dlist.h: the head, the `next`/`prev` field of
             every element, and the macros as functions on them.

  An element is named by its address, `NULL` is `none`. A list is its head `(first, last)` and
  the `struct dlist_el` of each element (`Dlist.link`); each macro reads and writes these fields
  in the order of its body, so a field read after a store sees the store. `BUG_ON` (likely.h, not
  in src/) stops the program, and so does a store through `NULL`: such a step is `none`.

  The traversals `dlist_foreach` and `dlist_foreach_reverse` follow `next` from `first` and
  `prev` from `last`; they are given fuel, and one that runs out of it before `NULL` is `none`.

  `Dlist.spiegel` swaps `first`/`last` and `next`/`prev`. The source writes the tail-end macros
  and their head-end twins separately; here
  * `dlistForeachReverse_eq` -- `dlist_foreach_reverse` is `dlist_foreach` of the mirror;
  * `dlistPrepend_eq` -- `dlist_prepend` is `dlist_append` of the mirror, on every head whose
    `first` and `last` are `NULL` together (the emptiness test of both reads `first`);
  * `dlistUnlink_spiegel` -- `dlist_unlink` commutes with the mirror (its two checks and its
    two stores swap roles).
-/
import Mathlib.Logic.Function.Basic

namespace Minicache

/-! ## 1. State -/

/-- `struct dlist_el`: the link field an element carries. -/
@[ext] structure DlistEl where
  next : Option Nat
  prev : Option Nat
  deriving DecidableEq, Repr

/-- `struct dlist_head` and the `struct dlist_el` of every element. -/
structure Dlist where
  first : Option Nat
  last : Option Nat
  link : Nat → DlistEl

/-- The store `el->dlname.next = n`. -/
def Dlist.setNext (s : Dlist) (el : Nat) (n : Option Nat) : Dlist :=
  { s with link := Function.update s.link el { s.link el with next := n } }

/-- The store `el->dlname.prev = p`. -/
def Dlist.setPrev (s : Dlist) (el : Nat) (p : Option Nat) : Dlist :=
  { s with link := Function.update s.link el { s.link el with prev := p } }

@[simp] theorem Dlist.setNext_first (s : Dlist) (el : Nat) (n : Option Nat) :
    (s.setNext el n).first = s.first := rfl
@[simp] theorem Dlist.setNext_last (s : Dlist) (el : Nat) (n : Option Nat) :
    (s.setNext el n).last = s.last := rfl
@[simp] theorem Dlist.setPrev_first (s : Dlist) (el : Nat) (p : Option Nat) :
    (s.setPrev el p).first = s.first := rfl
@[simp] theorem Dlist.setPrev_last (s : Dlist) (el : Nat) (p : Option Nat) :
    (s.setPrev el p).last = s.last := rfl

theorem Dlist.setNext_link (s : Dlist) (el : Nat) (n : Option Nat) (a : Nat) :
    (s.setNext el n).link a = if a = el then { s.link el with next := n } else s.link a := by
  simp only [Dlist.setNext, Function.update_apply]

theorem Dlist.setPrev_link (s : Dlist) (el : Nat) (p : Option Nat) (a : Nat) :
    (s.setPrev el p).link a = if a = el then { s.link el with prev := p } else s.link a := by
  simp only [Dlist.setPrev, Function.update_apply]

@[simp] theorem Dlist.setNext_next (s : Dlist) (el : Nat) (n : Option Nat) (a : Nat) :
    ((s.setNext el n).link a).next = if a = el then n else (s.link a).next := by
  rw [Dlist.setNext_link]; split <;> rfl

@[simp] theorem Dlist.setNext_prev (s : Dlist) (el : Nat) (n : Option Nat) (a : Nat) :
    ((s.setNext el n).link a).prev = (s.link a).prev := by
  rw [Dlist.setNext_link]; split <;> simp_all

@[simp] theorem Dlist.setPrev_prev (s : Dlist) (el : Nat) (p : Option Nat) (a : Nat) :
    ((s.setPrev el p).link a).prev = if a = el then p else (s.link a).prev := by
  rw [Dlist.setPrev_link]; split <;> rfl

@[simp] theorem Dlist.setPrev_next (s : Dlist) (el : Nat) (p : Option Nat) (a : Nat) :
    ((s.setPrev el p).link a).next = (s.link a).next := by
  rw [Dlist.setPrev_link]; split <;> simp_all

/-- Two lists are equal when their heads and all their link fields are. -/
theorem Dlist.ext' {s t : Dlist} (hf : s.first = t.first) (hl : s.last = t.last)
    (hn : ∀ a, (s.link a).next = (t.link a).next) (hp : ∀ a, (s.link a).prev = (t.link a).prev) :
    s = t := by
  cases s; cases t
  simp only [Dlist.mk.injEq]
  exact ⟨hf, hl, funext fun a => by cases h : ‹Nat → DlistEl› a; simp_all [DlistEl.ext_iff]⟩

/-! ## 2. The macros -/

/-- `dlist_init_head(head)`: the list is empty; the elements' link fields are as they were. -/
def dlistInitHead (s : Dlist) : Dlist := { s with first := none, last := none }

/-- `dlist_init_el(el, dlname)`. -/
def dlistInitEl (el : Nat) (s : Dlist) : Dlist := (s.setNext el none).setPrev el none

/-- `dlist_is_empty(head)`. -/
def dlistIsEmpty (s : Dlist) : Bool := s.first.isNone

/-- `dlist_is_linked(el, head, dlname)`: a link field that is not `NULL`, or `el` at an end of the
    list. -/
def dlistIsLinked (el : Nat) (s : Dlist) : Bool :=
  ((s.link el).prev != none || (s.link el).next != none) || (s.first == some el || s.last == some el)

/-- `dlist_unlink(el, head, dlname)`: the two `BUG_ON` checks, the store into the predecessor (or
    `first`), then -- reading `el`'s fields again -- the store into the successor (or `last`), and
    `dlist_init_el`. -/
def dlistUnlink (el : Nat) (s : Dlist) : Option Dlist :=
  if (s.link el).prev = none ∧ s.first ≠ some el then none
  else if (s.link el).next = none ∧ s.last ≠ some el then none
  else
    let s := match (s.link el).prev with
      | some p => s.setNext p (s.link el).next
      | none => { s with first := (s.link el).next }
    let s := match (s.link el).next with
      | some n => s.setPrev n (s.link el).prev
      | none => { s with last := (s.link el).prev }
    some (dlistInitEl el s)

/-- `dlist_append(el, head, dlname)`; `none` when the list is not empty and `last` is `NULL`. -/
def dlistAppend (el : Nat) (s : Dlist) : Option Dlist := do
  let s ← if dlistIsEmpty s then some (({ s with first := some el } : Dlist).setPrev el none)
    else match s.last with
      | some l => some ((s.setNext l (some el)).setPrev el s.last)
      | none => none
  some { s.setNext el none with last := some el }

/-- `dlist_prepend(el, head, dlname)`; `none` when the list is not empty and `first` is `NULL`
    (which `dlist_is_empty` excludes: the store is never through `NULL`). -/
def dlistPrepend (el : Nat) (s : Dlist) : Option Dlist := do
  let s ← if dlistIsEmpty s then some (({ s with last := some el } : Dlist).setNext el none)
    else match s.first with
      | some f => some ((s.setPrev f (some el)).setNext el s.first)
      | none => none
  some { s.setPrev el none with first := some el }

/-- `dlist_relink_tail(el, head, dlname)`. -/
def dlistRelinkTail (el : Nat) (s : Dlist) : Option Dlist := (dlistUnlink el s).bind (dlistAppend el)

/-- `dlist_relink_head(el, head, dlname)`. -/
def dlistRelinkHead (el : Nat) (s : Dlist) : Option Dlist := (dlistUnlink el s).bind (dlistPrepend el)

/-! ## 3. Traversals -/

/-- The elements visited from `el` on, following `nf` until `NULL`; `none` when `fuel` steps do
    not reach it. -/
def durchlauf (nf : Nat → Option Nat) : Nat → Option Nat → Option (List Nat)
  | _, none => some []
  | 0, some _ => none
  | fuel + 1, some a => (durchlauf nf fuel (nf a)).map (a :: ·)

/-- `dlist_foreach(el, head, dlname)`: the elements its body sees, in order. -/
def dlistForeach (fuel : Nat) (s : Dlist) : Option (List Nat) :=
  durchlauf (fun a => (s.link a).next) fuel s.first

/-- `dlist_foreach_reverse(el, head, dlname)`. -/
def dlistForeachReverse (fuel : Nat) (s : Dlist) : Option (List Nat) :=
  durchlauf (fun a => (s.link a).prev) fuel s.last

/-! ## 4. Sequences of operations -/

/-- One of the list operations of dlist.h, with the element it takes. -/
inductive DlistOp
  | append (el : Nat)
  | prepend (el : Nat)
  | unlink (el : Nat)
  | relinkTail (el : Nat)
  | relinkHead (el : Nat)
  deriving DecidableEq, Repr

/-- The macro an operation names. -/
def DlistOp.ausfuehren : DlistOp → Dlist → Option Dlist
  | .append el => dlistAppend el
  | .prepend el => dlistPrepend el
  | .unlink el => dlistUnlink el
  | .relinkTail el => dlistRelinkTail el
  | .relinkHead el => dlistRelinkHead el

/-- The operations in order, on one head; `none` if one of them stops the program. -/
def ausfuehren : List DlistOp → Dlist → Option Dlist
  | [], s => some s
  | o :: os, s => (o.ausfuehren s).bind (ausfuehren os)

/-! ## 5. The mirror -/

/-- The list read from the other end: `first`/`last` and `next`/`prev` swapped. -/
def Dlist.spiegel (s : Dlist) : Dlist :=
  ⟨s.last, s.first, fun a => ⟨(s.link a).prev, (s.link a).next⟩⟩

@[simp] theorem Dlist.spiegel_first (s : Dlist) : s.spiegel.first = s.last := rfl
@[simp] theorem Dlist.spiegel_last (s : Dlist) : s.spiegel.last = s.first := rfl
@[simp] theorem Dlist.spiegel_next (s : Dlist) (a : Nat) :
    (s.spiegel.link a).next = (s.link a).prev := rfl
@[simp] theorem Dlist.spiegel_prev (s : Dlist) (a : Nat) :
    (s.spiegel.link a).prev = (s.link a).next := rfl

@[simp] theorem Dlist.spiegel_spiegel (s : Dlist) : s.spiegel.spiegel = s := rfl

theorem Dlist.spiegel_setNext (s : Dlist) (el : Nat) (n : Option Nat) :
    (s.setNext el n).spiegel = s.spiegel.setPrev el n :=
  Dlist.ext' rfl rfl (fun a => by simp) (fun a => by simp)

theorem Dlist.spiegel_setPrev (s : Dlist) (el : Nat) (p : Option Nat) :
    (s.setPrev el p).spiegel = s.spiegel.setNext el p :=
  Dlist.ext' rfl rfl (fun a => by simp) (fun a => by simp)

theorem dlistForeachReverse_eq (fuel : Nat) (s : Dlist) :
    dlistForeachReverse fuel s = dlistForeach fuel s.spiegel := rfl

theorem dlistPrepend_eq {s : Dlist} (el : Nat) (h : s.first = none ↔ s.last = none) :
    dlistPrepend el s = (dlistAppend el s.spiegel).map Dlist.spiegel := by
  cases hf : s.first with
  | none =>
    simp only [dlistPrepend, dlistAppend, dlistIsEmpty, Dlist.spiegel_first, hf, h.mp hf]
    exact congrArg some (Dlist.ext' rfl rfl (fun a => by simp) (fun a => by simp))
  | some f =>
    cases hl : s.last with
    | none => exact absurd (h.mpr hl) (by simp [hf])
    | some l =>
      simp only [dlistPrepend, dlistAppend, dlistIsEmpty, Dlist.spiegel_first, Dlist.spiegel_last, hf, hl]
      exact congrArg some (Dlist.ext' rfl rfl (fun a => by simp) (fun a => by simp))

theorem dlistUnlink_spiegel (s : Dlist) (el : Nat) :
    dlistUnlink el s.spiegel = (dlistUnlink el s).map Dlist.spiegel := by
  unfold dlistUnlink dlistInitEl
  by_cases c1 : (s.link el).prev = none ∧ s.first ≠ some el
  · by_cases c2 : (s.link el).next = none ∧ s.last ≠ some el <;> simp [c1, c2]
  by_cases c2 : (s.link el).next = none ∧ s.last ≠ some el
  · simp [c1, c2]
  simp only [Dlist.spiegel_prev, Dlist.spiegel_next, Dlist.spiegel_first, Dlist.spiegel_last,
    c1, c2, if_false, Option.map_some']
  refine congrArg some (Dlist.ext' ?_ ?_ (fun a => ?_) (fun a => ?_)) <;>
    cases hP : (s.link el).prev <;> cases hN : (s.link el).next <;>
    simp_all

end Minicache
