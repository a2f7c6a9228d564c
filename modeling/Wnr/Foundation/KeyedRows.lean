import Mathlib.Data.List.Nodup

/-! # Lists of rows with distinct keys

A row is put into the list in place of the first one with its key, or at the end.
Rows stay distinct by their key (`KeyedRows.Distinct.upsert`), and also by a coarser
one as long as a put row and the rows with its coarse key agree on the key
(`KeyedRows.Distinct.upsert_coarser`).
-/

namespace KeyedRows

variable {Row Key Coarse : Type*} {key : Row → Key} {rows : List Row} {row other : Row}

/-- No two rows have the same key. -/
def Distinct (key : Row → Key) (rows : List Row) : Prop := (rows.map key).Nodup

theorem Distinct.nil (key : Row → Key) : Distinct key [] := List.nodup_nil

/-- Rows with one key are one row. -/
theorem Distinct.eq (distinct : Distinct key rows) (here : row ∈ rows) (there : other ∈ rows)
    (same : key row = key other) : row = other :=
  List.inj_on_of_nodup_map distinct here there same

/-- A key selects its row. -/
theorem Distinct.filter_eq [DecidableEq Key] (distinct : Distinct key rows) (member : row ∈ rows) :
    rows.filter (key · = key row) = [row] := by
  induction rows with
  | nil => cases member
  | cons first rest ih =>
      obtain ⟨fresh, later⟩ := List.nodup_cons.mp distinct
      rcases List.mem_cons.mp member with rfl | member
      · have others : rest.filter (key · = key row) = [] := by
          apply List.filter_eq_nil_iff.mpr
          intro other member same
          exact fresh (List.mem_map.mpr ⟨other, member, of_decide_eq_true same⟩)
        simp only [List.filter_cons, decide_true, if_true, others]
      · have differs : key first ≠ key row := by
          intro same
          exact fresh (List.mem_map.mpr ⟨row, member, same.symm⟩)
        simp only [List.filter_cons, differs, decide_false, Bool.false_eq_true, if_false,
          ih later member]

instance [DecidableEq Key] (rows : List Row) : Decidable (Distinct key rows) :=
  inferInstanceAs (Decidable (List.Nodup _))

variable [DecidableEq Key] {change : Row → Row}

/-- Change the first row with the key of `row`; where there is none, append `row`. -/
def upsert (key : Row → Key) (change : Row → Row) (row : Row) : List Row → List Row
  | [] => [row]
  | first :: rest =>
      if key first = key row then change first :: rest else first :: upsert key change row rest

/-- Remove the rows with a key. -/
def erase (key : Row → Key) (value : Key) (rows : List Row) : List Row :=
  rows.filter (key · ≠ value)

theorem Distinct.erase {coarse : Row → Coarse} (distinct : Distinct coarse rows) (value : Key) :
    Distinct coarse (KeyedRows.erase key value rows) :=
  List.Nodup.sublist (List.filter_sublist.map coarse) distinct

theorem mem_erase {value : Key} : row ∈ erase key value rows ↔ row ∈ rows ∧ key row ≠ value := by
  rw [erase, List.mem_filter, decide_eq_true_iff]

/-- Removing a key leaves the rows with a property that none of its rows has. -/
theorem filter_erase {keeps : Row → Prop} [DecidablePred keeps] {value : Key}
    (apart : ∀ row, keeps row → key row ≠ value) :
    (erase key value rows).filter (keeps ·) = rows.filter (keeps ·) := by
  rw [erase, List.filter_filter]
  apply List.filter_congr
  intro row _
  rw [Bool.and_eq_left_iff_imp, decide_eq_true_iff, decide_eq_true_iff]
  exact apart row

section Upsert

/-! The changed row is the one that was put. -/

variable (replaced : ∀ old, key old = key row → change old = row)

include replaced

theorem map_upsert (rows : List Row) :
    (upsert key change row rows).map key =
      if key row ∈ rows.map key then rows.map key else rows.map key ++ [key row] := by
  induction rows with
  | nil => rfl
  | cons first rest ih =>
      by_cases here : key first = key row
      · have found : key row ∈ (first :: rest).map key := here ▸ List.mem_cons_self
        rw [upsert, if_pos here, if_pos found, List.map_cons, List.map_cons, replaced first here,
          here]
      · have later : key row ∈ (first :: rest).map key ↔ key row ∈ rest.map key := by
          rw [List.map_cons, List.mem_cons, or_iff_right (Ne.symm here)]
        rw [upsert, if_neg here, List.map_cons, ih]
        simp only [later]
        split <;> rfl

theorem Distinct.upsert (distinct : Distinct key rows) :
    Distinct key (KeyedRows.upsert key change row rows) := by
  rw [Distinct, map_upsert replaced]
  split
  · exact distinct
  · rename_i missing
    rw [← List.concat_eq_append]
    exact List.Nodup.concat missing distinct

/-- Putting a row leaves the rows with a property that no row of its key has. -/
theorem filter_upsert {keeps : Row → Prop} [DecidablePred keeps]
    (apart : ∀ other, keeps other → key other ≠ key row) :
    (KeyedRows.upsert key change row rows).filter (keeps ·) = rows.filter (keeps ·) := by
  have drops (old : Row) (same : key old = key row) : ¬ keeps old := fun kept => apart old kept same
  induction rows with
  | nil => rw [KeyedRows.upsert, List.filter_cons, if_neg (by simpa using drops row rfl)]
  | cons first rest ih =>
      by_cases here : key first = key row
      · rw [KeyedRows.upsert, if_pos here, replaced first here, List.filter_cons, List.filter_cons,
          if_neg (by simpa using drops row rfl), if_neg (by simpa using drops first here)]
      · rw [KeyedRows.upsert, if_neg here, List.filter_cons, List.filter_cons, ih]

/-- A put row takes the place of the row with its key. -/
theorem mem_upsert (distinct : Distinct key rows) :
    other ∈ KeyedRows.upsert key change row rows ↔
      other = row ∨ other ∈ rows ∧ key other ≠ key row := by
  induction rows with
  | nil =>
      rw [KeyedRows.upsert, List.mem_singleton]
      exact ⟨.inl, fun either => either.resolve_right fun none => List.not_mem_nil none.1⟩
  | cons first rest ih =>
      obtain ⟨fresh, distinct⟩ := List.nodup_cons.mp distinct
      by_cases here : key first = key row
      · have others : ∀ other ∈ rest, key other ≠ key row := by
          intro other member same
          exact fresh (List.mem_map.mpr ⟨other, member, same.trans here.symm⟩)
        rw [KeyedRows.upsert, if_pos here, replaced first here, List.mem_cons, List.mem_cons]
        constructor
        · intro either
          exact either.imp_right fun member => ⟨.inr member, others other member⟩
        · intro either
          rcases either with rfl | ⟨rfl | member, differs⟩
          · exact .inl rfl
          · exact absurd here differs
          · exact .inr member
      · rw [KeyedRows.upsert, if_neg here, List.mem_cons, ih distinct, List.mem_cons]
        constructor
        · intro either
          rcases either with rfl | rfl | ⟨member, differs⟩
          · exact .inr ⟨.inl rfl, here⟩
          · exact .inl rfl
          · exact .inr ⟨.inr member, differs⟩
        · intro either
          rcases either with rfl | ⟨rfl | member, differs⟩
          · exact .inr (.inl rfl)
          · exact .inl rfl
          · exact .inr (.inr ⟨member, differs⟩)

/-- Rows also stay distinct by a coarser key when it leads to one key only. -/
theorem Distinct.upsert_coarser {coarse : Key → Coarse}
    (distinct : Distinct (fun row => coarse (key row)) rows)
    (agree : ∀ other ∈ rows, coarse (key other) = coarse (key row) → key other = key row) :
    Distinct (fun row => coarse (key row)) (KeyedRows.upsert key change row rows) := by
  have coarser (rows : List Row) :
      rows.map (fun row => coarse (key row)) = (rows.map key).map coarse := List.map_map.symm
  rw [Distinct, coarser] at distinct ⊢
  rw [map_upsert replaced]
  split
  · exact distinct
  · rename_i missing
    rw [List.map_append, List.map_singleton, ← List.concat_eq_append]
    refine List.Nodup.concat (fun found => ?_) distinct
    obtain ⟨value, known, same⟩ := List.mem_map.mp found
    obtain ⟨other, member, rfl⟩ := List.mem_map.mp known
    exact missing (agree other member same ▸ known)

end Upsert

/-- Where a row has a property, the first one that has it is found. -/
theorem exists_find? {property : Row → Prop} [DecidablePred property]
    (present : ∃ row ∈ rows, property row) :
    ∃ first ∈ rows, property first ∧ rows.find? (property ·) = some first := by
  obtain ⟨row, member, has⟩ := present
  have some : (rows.find? (property ·)).isSome :=
    List.find?_isSome.mpr ⟨row, member, decide_eq_true has⟩
  obtain ⟨first, isFirst⟩ := Option.isSome_iff_exists.mp some
  have firstHas := List.find?_some isFirst
  exact ⟨first, List.mem_of_find?_eq_some isFirst, of_decide_eq_true firstHas, isFirst⟩

/-! ## Merging the rows of each key -/

section Merging

variable {Entry : Type*} {name : Entry → Key} {carries : Entry → List Row → Prop}
  {entries : List Entry}

/-- Each key of the rows has one entry, and that entry carries all rows of the key. -/
structure Merges (key : Row → Key) (name : Entry → Key) (carries : Entry → List Row → Prop)
    (rows : List Row) (entries : List Entry) : Prop where
  distinct : Distinct name entries
  named : ∀ value, value ∈ entries.map name ↔ value ∈ rows.map key
  carries : ∀ entry ∈ entries, carries entry (rows.filter (key · = name entry))

/-- The entry of a key is found by its name. -/
theorem Merges.find (merges : Merges key name carries rows entries) {value : Key}
    (present : value ∈ rows.map key) :
    ∃ entry, entries.find? (name · = value) = some entry ∧
      carries entry (rows.filter (key · = value)) := by
  obtain ⟨entry, member, named⟩ := List.mem_map.mp ((merges.named value).mpr present)
  have known : ∃ entry ∈ entries, name entry = value := ⟨entry, member, named⟩
  obtain ⟨first, isMember, own, isFirst⟩ := exists_find? known
  have all := merges.carries first isMember
  rw [own] at all
  exact ⟨first, isFirst, all⟩

/-- **One entry for each row** merges the rows exactly when no two have one key
and each entry carries its row. -/
theorem merges_map_iff {entryOf : Row → Entry} (kept : ∀ row, name (entryOf row) = key row) :
    Merges key name carries rows (rows.map entryOf) ↔
      Distinct key rows ∧ ∀ row ∈ rows, carries (entryOf row) [row] := by
  have names : (rows.map entryOf).map name = rows.map key := by
    rw [List.map_map]
    exact List.map_congr_left fun row _ => kept row
  constructor
  · intro merges
    have distinct : Distinct key rows := by
      have nodup := merges.distinct
      rwa [Distinct, names] at nodup
    refine ⟨distinct, fun row member => ?_⟩
    have all := merges.carries (entryOf row) (List.mem_map_of_mem member)
    rwa [kept, distinct.filter_eq member] at all
  · rintro ⟨distinct, each⟩
    refine ⟨by rwa [Distinct, names], fun value => by rw [names], fun entry member => ?_⟩
    obtain ⟨row, present, rfl⟩ := List.mem_map.mp member
    rw [kept, distinct.filter_eq present]
    exact each row present

end Merging

end KeyedRows
