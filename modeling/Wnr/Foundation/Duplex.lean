import Mathlib.Logic.Relation

/-! # Two parties on a stream

Two parties are joined by a stream in each direction. What a party gives comes behind
what is on the way, and what it takes comes off the front; the parties move in any
order. Along every run, what the one has given is what the other has taken with what is
on the way behind it (`Duplex.conserved`), and what each party's moves keep is kept
(`Duplex.near_invariant`, `Duplex.far_invariant`).
-/

namespace Duplex

variable {Near Far Byte : Type*}

/-- A party: its moves, each with what it takes and what it gives, and the totals. -/
structure Party (State Byte : Type*) where
  moves : State → List Byte → List Byte → State → Prop
  taken : State → List Byte
  given : State → List Byte
  taken_moves : ∀ {before got new after}, moves before got new after →
    taken after = taken before ++ got
  given_moves : ∀ {before got new after}, moves before got new after →
    given after = given before ++ new

/-- Two parties and what is on the way between them. -/
@[ext]
structure Link (Near Far Byte : Type*) where
  near : Near
  far : Far
  outward : List Byte
  inward : List Byte

/-- The link as the far party sees it. -/
def Link.swap (link : Link Near Far Byte) : Link Far Near Byte :=
  ⟨link.far, link.near, link.inward, link.outward⟩

@[simp] theorem Link.swap_swap (link : Link Near Far Byte) : link.swap.swap = link := rfl

/-- One party moves. -/
inductive Step (p : Party Near Byte) (q : Party Far Byte) :
    Link Near Far Byte → Link Near Far Byte → Prop
  | near {near after : Near} {far : Far} {got new outward rest : List Byte}
      (moved : p.moves near got new after) :
      Step p q ⟨near, far, outward, got ++ rest⟩ ⟨after, far, outward ++ new, rest⟩
  | far {near : Near} {far after : Far} {got new inward rest : List Byte}
      (moved : q.moves far got new after) :
      Step p q ⟨near, far, got ++ rest, inward⟩ ⟨near, after, rest, inward ++ new⟩

/-- The parties move, in any order. -/
def Run (p : Party Near Byte) (q : Party Far Byte) :
    Link Near Far Byte → Link Near Far Byte → Prop :=
  Relation.ReflTransGen (Step p q)

variable {p : Party Near Byte} {q : Party Far Byte} {link after : Link Near Far Byte}

theorem Step.swap (step : Step p q link after) : Step q p link.swap after.swap := by
  cases step with
  | near moved => exact .far moved
  | far moved => exact .near moved

theorem Run.swap (run : Run p q link after) : Run q p link.swap after.swap := by
  induction run with
  | refl => exact .refl
  | tail _ step ih => exact ih.tail step.swap

/-- What the near party has given and the far party has not taken is on the way. -/
def Carried (p : Party Near Byte) (q : Party Far Byte) (link : Link Near Far Byte) : Prop :=
  p.given link.near = q.taken link.far ++ link.outward

theorem Carried.step (carried : Carried p q link) (step : Step p q link after) :
    Carried p q after := by
  cases step with
  | near moved =>
      rw [Carried, p.given_moves moved, carried, List.append_assoc]
  | far moved =>
      rw [Carried, q.taken_moves moved, List.append_assoc]
      exact carried

theorem Carried.run (carried : Carried p q link) (run : Run p q link after) :
    Carried p q after := by
  induction run with
  | refl => exact carried
  | tail _ step ih => exact ih.step step

/-- **Nothing is lost, duplicated or reordered** in either direction. -/
theorem conserved (run : Run p q link after) (outward : Carried p q link)
    (inward : Carried q p link.swap) : Carried p q after ∧ Carried q p after.swap :=
  ⟨outward.run run, inward.run run.swap⟩

/-- What the moves of the near party keep is kept. -/
theorem near_invariant {property : Near → Prop} (run : Run p q link after)
    (initially : property link.near)
    (kept : ∀ {before got new after}, property before → p.moves before got new after →
      property after) : property after.near := by
  induction run with
  | refl => exact initially
  | tail _ step ih =>
      cases step with
      | near moved => exact kept ih moved
      | far moved => exact ih

/-- What the moves of the far party keep is kept. -/
theorem far_invariant {property : Far → Prop} (run : Run p q link after)
    (initially : property link.far)
    (kept : ∀ {before got new after}, property before → q.moves before got new after →
      property after) : property after.far :=
  near_invariant run.swap initially kept

end Duplex
