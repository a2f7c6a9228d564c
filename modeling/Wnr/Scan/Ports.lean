import Mathlib.Data.List.Forall2
import Mathlib.Data.List.Sort
import Wnr.Foundation.FirstSeen
import Wnr.Foundation.Text

/-! # The ports of a scan

A specification is a list of ports and of ranges of ports between commas. What it names
comes out in its order, each port once (`Wnr.Scan.parsePorts_exact`). A bound of a range
that is missing or is no port is replaced, so that a malformed range names ports all the
same (`Wnr.Scan.namesOnly_iff`).
-/

namespace Wnr.Scan

open Text FirstSeen

/-- The ports `a..=b`. -/
def portRange (a b : UInt16) : List UInt16 :=
  (List.range' a.toNat (b.toNat + 1 - a.toNat)).map UInt16.ofNat

/-- Collect the ports of one part. -/
def parsePart (found : Seen UInt16) (part : List Char) : Seen UInt16 :=
  if '-' ∈ part then
    let bounds := part.splitOn '-'
    let a := (bounds[0]?.bind parseU16).getD 0
    let b := (bounds[1]?.bind parseU16).getD a
    (portRange a (max b a)).foldl Seen.insert found
  else
    match parseU16 part with
    | some p => found.insert p
    | none => found

/-- The ports of a specification. -/
def parsePorts (spec : List Char) : List UInt16 :=
  ((spec.splitOn ',').foldl parsePart Seen.empty).out

/-- A port, or a range with its first port not after its last one, and the ports it names
in ascending order. -/
inductive Denotes : List Char → List UInt16 → Prop
  | port {text : List Char} {p : UInt16} (read : parseU16 text = some p) : Denotes text [p]
  | range {first last : List Char} {a b : UInt16} {ports : List UInt16}
      (readFirst : parseU16 first = some a) (readLast : parseU16 last = some b) (le : a ≤ b)
      (ascending : ports.Pairwise (· < ·)) (between : ∀ p, p ∈ ports ↔ a ≤ p ∧ p ≤ b) :
      Denotes (first ++ '-' :: last) ports

/-! ## Ranges -/

theorem mem_portRange {a b p : UInt16} : p ∈ portRange a b ↔ a ≤ p ∧ p ≤ b := by
  have bound := b.toNat_lt
  rw [portRange, List.mem_map, UInt16.le_iff_toNat_le, UInt16.le_iff_toNat_le]
  constructor
  · rintro ⟨value, member, rfl⟩
    rw [List.mem_range'_1] at member
    rw [UInt16.toNat_ofNat_of_lt' (show value < 65536 by omega)]
    omega
  · rintro ⟨low, high⟩
    refine ⟨p.toNat, ?_, UInt16.ofNat_toNat⟩
    rw [List.mem_range'_1]
    omega

theorem pairwise_portRange (a b : UInt16) : (portRange a b).Pairwise (· < ·) := by
  have bound := b.toNat_lt
  rw [portRange, List.pairwise_map]
  apply List.Pairwise.imp_of_mem _ List.pairwise_lt_range'
  intro first second here there less
  rw [List.mem_range'_1] at here there
  rw [UInt16.lt_iff_toNat_lt, UInt16.toNat_ofNat_of_lt' (show first < 65536 by omega),
    UInt16.toNat_ofNat_of_lt' (show second < 65536 by omega)]
  exact less

/-- The last port of a range is not before the first. -/
theorem le_max_iff {a b p : UInt16} : p ≤ max b a ↔ p ≤ a ∨ p ≤ b := by
  change p ≤ (if b ≤ a then a else b) ↔ _
  simp only [UInt16.le_iff_toNat_le]
  split <;> omega

/-! ## The ports of a part -/

/-- What a part adds, repetitions included. -/
def portsOf (part : List Char) : List UInt16 :=
  if '-' ∈ part then
    let bounds := part.splitOn '-'
    let a := (bounds[0]?.bind parseU16).getD 0
    let b := (bounds[1]?.bind parseU16).getD a
    portRange a (max b a)
  else (parseU16 part).toList

theorem parsePart_eq (found : Seen UInt16) (part : List Char) :
    parsePart found part = found.insertAll (portsOf part) := by
  unfold parsePart portsOf
  split
  · rfl
  · cases parseU16 part <;> rfl

/-- **The loops.** The ports of all parts come out, each at its first occurrence. -/
theorem parsePorts_eq (spec : List Char) :
    parsePorts spec = ((spec.splitOn ',').flatMap portsOf).eraseDups := by
  have loops : (spec.splitOn ',').foldl parsePart Seen.empty =
      Seen.empty.insertAll ((spec.splitOn ',').flatMap portsOf) := by
    rw [Seen.insertAll, List.foldl_flatMap]
    exact List.foldl_ext _ _ _ fun found part _ => parsePart_eq found part
  rw [parsePorts, loops, out_insertAll]

/-! ## Well-formed parts -/

variable {part first last : List Char} {a b p : UInt16} {ports : List UInt16}

/-- A number has neither separator. -/
theorem not_mem_of_parseU16 {c : Char} (read : parseU16 part = some p) (noDigit : c.isDigit = false)
    (noPlus : c ≠ '+') : c ∉ part := by
  intro member
  rcases isDigit_or_plus_of_parseU16 read member with digit | plus
  · exact absurd (noDigit.symm.trans digit) Bool.false_ne_true
  · exact noPlus plus

theorem portsOf_port (read : parseU16 part = some p) : portsOf part = [p] := by
  have noDash : '-' ∉ part := not_mem_of_parseU16 read rfl (by decide)
  rw [portsOf, if_neg noDash, read]
  rfl

theorem portsOf_bounds (readFirst : parseU16 first = some a) (readLast : parseU16 last = some b) :
    portsOf (first ++ '-' :: last) = portRange a (max b a) := by
  have dash : '-' ∈ first ++ '-' :: last := List.mem_append_right _ List.mem_cons_self
  have bounds : (first ++ '-' :: last).splitOn '-' = [first, last] := by
    rw [List.splitOn_append_cons_self_of_not_mem (not_mem_of_parseU16 readFirst rfl (by decide)),
      List.splitOn_eq_singleton (not_mem_of_parseU16 readLast rfl (by decide))]
  simp only [portsOf, if_pos dash, bounds, List.getElem?_cons_zero, List.getElem?_cons_succ,
    Option.bind_some, readFirst, readLast, Option.getD_some]

/-- Two bounds with a dash between them consist of digits, plus signs and the dash. -/
theorem not_mem_bounds {c : Char} (readFirst : parseU16 first = some a)
    (readLast : parseU16 last = some b) (noDigit : c.isDigit = false) (noPlus : c ≠ '+')
    (noDash : c ≠ '-') : c ∉ first ++ '-' :: last := by
  intro member
  rcases List.mem_append.mp member with inside | later
  · exact not_mem_of_parseU16 readFirst noDigit noPlus inside
  · rcases List.mem_cons.mp later with dash | inside
    · exact noDash dash
    · exact not_mem_of_parseU16 readLast noDigit noPlus inside

theorem Denotes.portsOf_eq (denotes : Denotes part ports) : portsOf part = ports := by
  cases denotes with
  | port read => exact portsOf_port read
  | range readFirst readLast le ascending between =>
      rw [portsOf_bounds readFirst readLast]
      refine (List.Pairwise.eq_of_mem_iff ascending (pairwise_portRange _ _) fun p => ?_).symm
      rw [between, mem_portRange, le_max_iff]
      exact and_congr_right fun _ =>
        ⟨.inr, fun either => either.elim (fun low => UInt16.le_trans low le) id⟩

theorem Denotes.noComma (denotes : Denotes part ports) : ',' ∉ part := by
  cases denotes with
  | port read => exact not_mem_of_parseU16 read rfl (by decide)
  | range readFirst readLast _ _ _ =>
      exact not_mem_bounds readFirst readLast rfl (by decide) (by decide)

/-- **Well-formed specifications.** The result is what the parts denote, in order, each port at
its first occurrence; and whatever the text is, no port comes twice. -/
theorem parsePorts_exact :
    (∀ parts ports, List.Forall₂ Denotes parts ports →
      parsePorts ([','].intercalate parts) = ports.flatten.eraseDups) ∧
      ∀ spec, (parsePorts spec).Nodup := by
  constructor
  · intro parts ports denotes
    by_cases none : parts = []
    · subst none
      cases denotes
      rfl
    · have apart : ∀ part ∈ parts, ',' ∉ part := by
        have both := denotes.imp fun part ports each => And.intro (Denotes.noComma each) each
        exact ((List.forall₂_and_left _ _).mp both).1
      have each : parts.map portsOf = ports := by
        apply List.forall₂_eq_eq_eq ▸ (List.forall₂_map_left_iff.mpr _)
        exact denotes.imp fun _ _ each => each.portsOf_eq
      rw [parsePorts_eq, List.splitOn_intercalate ',' apart none, List.flatMap_def, each]
  · intro spec
    exact ((spec.splitOn ',').foldl parsePart Seen.empty).distinct

/-- Overlapping ranges, a repeated port and the last one. -/
theorem parsePorts_exact_overlap :
    parsePorts ([','].intercalate [['5', '-', '7'], ['6', '-', '8'], ['7'],
      ['6', '5', '5', '3', '4', '-', '6', '5', '5', '3', '5']]) = [5, 6, 7, 8, 65534, 65535] := by
  have range (first last : List Char) (a b : UInt16) (readFirst : parseU16 first = some a)
      (readLast : parseU16 last = some b) (le : a ≤ b) :
      Denotes (first ++ '-' :: last) (portRange a b) :=
    .range readFirst readLast le (pairwise_portRange a b) fun _ => mem_portRange
  apply parsePorts_exact.1 _ [portRange 5 7, portRange 6 8, [7], portRange 65534 65535]
  refine .cons ?_ (.cons ?_ (.cons ?_ (.cons ?_ .nil)))
  · exact range ['5'] ['7'] 5 7 rfl rfl (by decide)
  · exact range ['6'] ['8'] 6 8 rfl rfl (by decide)
  · exact .port rfl
  · exact range ['6', '5', '5', '3', '4'] ['6', '5', '5', '3', '5'] 65534 65535 rfl rfl (by decide)

/-! ## Malformed parts -/

/-- The part is two ports with a dash between them. -/
def HasBounds (part : List Char) : Prop :=
  ∃ first last, part = first ++ '-' :: last ∧ (parseU16 first).isSome ∧ (parseU16 last).isSome

/-- The part is the port, or has two bounds between which the port lies. -/
def Names (part : List Char) (p : UInt16) : Prop :=
  parseU16 part = some p ∨
    ∃ first last a b, part = first ++ '-' :: last ∧ parseU16 first = some a ∧
      parseU16 last = some b ∧ (a ≤ p ∧ p ≤ b ∨ b ≤ p ∧ p ≤ a)

/-- Every port of the result is named by a part, and the parts of neither form add none. -/
structure NamesOnly (spec : List Char) : Prop where
  named : ∀ p ∈ parsePorts spec, ∃ part ∈ spec.splitOn ',', Names part p
  malformed : ∀ part ∈ spec.splitOn ',',
    ¬ ((parseU16 part).isSome ∨ HasBounds part) → parsePorts part = []

/-- A part alone gives its own ports. -/
theorem parsePorts_part {spec : List Char} (of : part ∈ spec.splitOn ',') :
    parsePorts part = (portsOf part).eraseDups := by
  rw [parsePorts_eq, List.splitOn_eq_singleton (not_mem_of_mem_splitOn of), List.flatMap_singleton]

/-- The ports of a specification are those of its parts. -/
theorem mem_parsePorts_iff {spec : List Char} :
    p ∈ parsePorts spec ↔ ∃ part ∈ spec.splitOn ',', p ∈ parsePorts part := by
  rw [parsePorts_eq, List.mem_eraseDups, List.mem_flatMap]
  apply exists_congr
  intro part
  exact and_congr_right fun of => by rw [parsePorts_part of, List.mem_eraseDups]

/-- A part with a dash always gives a port. -/
theorem portsOf_ne_nil (dash : '-' ∈ part) : portsOf part ≠ [] := by
  simp only [portsOf, if_pos dash]
  apply List.ne_nil_of_mem
  exact mem_portRange.mpr ⟨UInt16.le_refl _, le_max_iff.mpr (.inl (UInt16.le_refl _))⟩

theorem HasBounds.names (bounds : HasBounds part) (member : p ∈ portsOf part) : Names part p := by
  obtain ⟨first, last, rfl, some, some'⟩ := bounds
  obtain ⟨a, readFirst⟩ := Option.isSome_iff_exists.mp some
  obtain ⟨b, readLast⟩ := Option.isSome_iff_exists.mp some'
  rw [portsOf_bounds readFirst readLast, mem_portRange, le_max_iff] at member
  refine .inr ⟨first, last, a, b, rfl, readFirst, readLast, ?_⟩
  simp only [UInt16.le_iff_toNat_le] at member ⊢
  omega

/-- **Only ports that are named.** A specification gives no port that it does not name exactly
when each of its parts with a dash has a port on either side of it. -/
theorem namesOnly_iff (spec : List Char) :
    NamesOnly spec ↔ ∀ part ∈ spec.splitOn ',', '-' ∈ part → HasBounds part := by
  constructor
  · intro only part of dash
    by_contra malformed
    have noPort : ¬ (parseU16 part).isSome := by
      intro some
      obtain ⟨p, read⟩ := Option.isSome_iff_exists.mp some
      exact not_mem_of_parseU16 read rfl (by decide) dash
    have none := only.malformed part of (not_or.mpr ⟨noPort, malformed⟩)
    obtain ⟨p, member⟩ := List.exists_mem_of_ne_nil _ (portsOf_ne_nil dash)
    have found : p ∈ parsePorts part := by
      rw [parsePorts_part of]
      exact List.mem_eraseDups.mpr member
    rw [none] at found
    cases found
  · intro wellFormed
    have noDash (part : List Char) (dash : '-' ∉ part) : portsOf part = (parseU16 part).toList :=
      if_neg dash
    constructor
    · intro p found
      obtain ⟨part, of, inside⟩ := mem_parsePorts_iff.mp found
      rw [parsePorts_part of, List.mem_eraseDups] at inside
      refine ⟨part, of, ?_⟩
      by_cases dash : '-' ∈ part
      · exact (wellFormed part of dash).names inside
      · rw [noDash part dash, Option.mem_toList] at inside
        exact .inl inside
    · intro part of neither
      obtain ⟨noPort, noBounds⟩ := not_or.mp neither
      have dash : '-' ∉ part := fun dash => noBounds (wellFormed part of dash)
      rw [parsePorts_part of, noDash part dash, Option.not_isSome_iff_eq_none.mp noPort]
      rfl

/-- A bound that is no port is read as 0, and the ports up to the other one are scanned. -/
theorem parsePorts_invents :
    ¬ NamesOnly ['x', '-', '3'] ∧ parsePorts ['x', '-', '3'] = [0, 1, 2, 3] := by
  refine ⟨fun only => ?_, by decide⟩
  have noBounds : ¬ HasBounds ['x', '-', '3'] := by
    rintro ⟨first, last, same, some, some'⟩
    have member : 'x' ∈ first ++ '-' :: last := same ▸ List.mem_cons_self
    obtain ⟨_, readFirst⟩ := Option.isSome_iff_exists.mp some
    obtain ⟨_, readLast⟩ := Option.isSome_iff_exists.mp some'
    exact not_mem_bounds readFirst readLast rfl (by decide) (by decide) member
  have none := only.malformed ['x', '-', '3'] (by decide) (not_or.mpr ⟨by decide, noBounds⟩)
  revert none
  decide

end Wnr.Scan
