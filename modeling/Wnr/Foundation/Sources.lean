import Mathlib.Logic.Basic

/-! # Sources that run out

A source hands out items, one with each call, until a call brings none, and what is left of
it gets less with each item. A loop that asks for items as long as they come sees
`Source.items` and leaves the handle `Source.last` behind, whatever it does with the items.
-/

/-- A handle that hands out items, and how much is left of it. -/
structure Source (Handle Item Error : Type*) where
  next : Handle → Except Error (Option Item) × Handle
  left : Handle → Nat
  less : ∀ {self after item}, next self = (.ok (some item), after) → left after < left self

namespace Source

variable {Handle Item Error : Type*} (source : Source Handle Item Error)

/-- Ask for items until a call brings none. -/
def run (self : Handle) : List Item × Handle :=
  match returned : source.next self with
  | (.ok (some item), after) =>
      have : source.left after < source.left self := source.less returned
      let later := run after
      (item :: later.1, later.2)
  | (.ok none, after) | (.error _, after) => ([], after)
termination_by source.left self
decreasing_by exact this

/-- The items that come. -/
def items (self : Handle) : List Item := (source.run self).1

/-- The handle after the call that brings none. -/
def last (self : Handle) : Handle := (source.run self).2

variable {source} {self after : Handle}

theorem end_ne_some (item : Item) : (.ok none : Except Error (Option Item)) ≠ .ok (some item) := by
  intro same
  cases same

theorem error_ne_some (e : Error) (item : Item) :
    (.error e : Except Error (Option Item)) ≠ .ok (some item) := by
  intro same
  cases same

theorem run_of_some {item : Item} (returned : source.next self = (.ok (some item), after)) :
    source.run self = (item :: source.items after, source.last after) := by
  rw [run]
  split
  · rename_i item' after' returned'
    cases returned.symm.trans returned'
    rfl
  · rename_i after' returned'
    cases returned.symm.trans returned'
  · rename_i e after' returned'
    cases returned.symm.trans returned'

theorem items_of_some {item : Item} (returned : source.next self = (.ok (some item), after)) :
    source.items self = item :: source.items after := by
  rw [items, run_of_some returned]

theorem last_of_some {item : Item} (returned : source.next self = (.ok (some item), after)) :
    source.last self = source.last after := by
  rw [last, run_of_some returned]

theorem run_of_none {result : Except Error (Option Item)}
    (returned : source.next self = (result, after)) (ended : ∀ item, result ≠ .ok (some item)) :
    source.run self = ([], after) := by
  rw [run]
  split
  · rename_i item after' returned'
    cases returned.symm.trans returned'
    exact absurd rfl (ended item)
  · rename_i after' returned'
    cases returned.symm.trans returned'
    rfl
  · rename_i e after' returned'
    cases returned.symm.trans returned'
    rfl

theorem items_of_none {result : Except Error (Option Item)}
    (returned : source.next self = (result, after)) (ended : ∀ item, result ≠ .ok (some item)) :
    source.items self = [] := by
  rw [items, run_of_none returned ended]

theorem last_of_none {result : Except Error (Option Item)}
    (returned : source.next self = (result, after)) (ended : ∀ item, result ≠ .ok (some item)) :
    source.last self = after := by
  rw [last, run_of_none returned ended]

/-- **Runs of a source**: what holds where a call brings no item, and before an item where it
holds after it, holds of every handle. -/
theorem run_induction {motive : Handle → Prop}
    (item : ∀ self item after, source.next self = (.ok (some item), after) →
      motive after → motive self)
    (ended : ∀ self result after, source.next self = (result, after) →
      (∀ item, result ≠ .ok (some item)) → motive self) (self : Handle) : motive self := by
  fun_induction run source self with
  | case1 self first after returned shorter later ih => exact item self first after returned ih
  | case2 self after returned => exact ended self _ after returned end_ne_some
  | case3 self e after returned => exact ended self _ after returned (error_ne_some e)

/-- What every call keeps holds of the handle that is left behind. -/
theorem last_invariant (Holds : Handle → Prop)
    (kept : ∀ self, Holds self → Holds (source.next self).2) (holds : Holds self) :
    Holds (source.last self) := by
  induction self using source.run_induction with
  | item self item after returned ih =>
      have step := kept self holds
      rw [returned] at step
      rw [last_of_some returned]
      exact ih step
  | ended self result after returned ended =>
      have step := kept self holds
      rw [returned] at step
      rw [last_of_none returned ended]
      exact step

end Source
