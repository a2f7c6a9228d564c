import Mathlib.Data.List.Infix
import Wnr.Foundation.KeyedRows

/-! # Maps as histories

What a finite map holds is determined by the history of its operations: a key has the
value of its last put if no removal follows, and the keys are in the order in which they
were first put since their last removal. A list of rows that are put in place and removed
by their key represents the map (`MapHistory.Represents.put`,
`MapHistory.Represents.remove`).
-/

namespace MapHistory

open KeyedRows

/-- An operation on a map. -/
inductive MapOp (Key Value : Type*)
  | put (key : Key) (value : Value)
  | remove (key : Key)
deriving DecidableEq

variable {Key Value : Type*}

/-- The key that an operation is about. -/
def MapOp.key : MapOp Key Value → Key
  | .put key _ | .remove key => key

/-- The key is put with the value, and no later operation is about it. -/
def LastPut (ops : List (MapOp Key Value)) (key : Key) (value : Value) : Prop :=
  ∃ earlier later, ops = earlier ++ .put key value :: later ∧ ∀ op ∈ later, op.key ≠ key

/-- Whenever the key was put, it was removed later. -/
def Gone (ops : List (MapOp Key Value)) (key : Key) : Prop :=
  ∀ earlier value later, ops = earlier ++ .put key value :: later → .remove key ∈ later

/-- The operation at an index puts the key when it is not there, and it is not removed
later: the first put of the key since its last removal. -/
def InsertedAt (ops : List (MapOp Key Value)) (key : Key) (index : Nat) : Prop :=
  ∃ earlier value later, ops = earlier ++ .put key value :: later ∧ earlier.length = index ∧
    Gone earlier key ∧ .remove key ∉ later

variable {ops : List (MapOp Key Value)} {op : MapOp Key Value} {key : Key} {value : Value}
  {index : Nat}

/-! ## One more operation -/

/-- An operation of a longer history is the last one or one of the others. -/
theorem concat_eq_append_cons_iff {earlier later : List (MapOp Key Value)}
    {other : MapOp Key Value} : ops ++ [op] = earlier ++ other :: later ↔
      (earlier = ops ∧ other = op ∧ later = []) ∨
        ∃ before, later = before ++ [op] ∧ ops = earlier ++ other :: before := by
  constructor
  · intro same
    rcases List.eq_nil_or_concat later with rfl | ⟨before, last, rfl⟩
    · obtain ⟨rfl, single⟩ := List.append_inj' same rfl
      exact .inl ⟨rfl, (List.cons.inj single).1.symm, rfl⟩
    · rw [List.concat_eq_append, ← List.cons_append, ← List.append_assoc] at same
      obtain ⟨rfl, single⟩ := List.append_inj' same rfl
      cases single
      exact .inr ⟨before, List.concat_eq_append, rfl⟩
  · rintro (⟨rfl, rfl, rfl⟩ | ⟨before, rfl, rfl⟩)
    · rfl
    · rw [List.append_assoc, List.cons_append]

theorem lastPut_concat : LastPut (ops ++ [op]) key value ↔
    op = .put key value ∨ op.key ≠ key ∧ LastPut ops key value := by
  constructor
  · rintro ⟨earlier, later, same, others⟩
    rcases concat_eq_append_cons_iff.mp same with ⟨-, rfl, -⟩ | ⟨before, rfl, whole⟩
    · exact .inl rfl
    · refine .inr ⟨others op (List.mem_append_right _ (List.mem_singleton_self op)), ?_⟩
      refine ⟨earlier, before, whole, fun other member => ?_⟩
      exact others other (List.mem_append_left _ member)
  · rintro (rfl | ⟨differs, earlier, before, rfl, others⟩)
    · exact ⟨ops, [], rfl, List.forall_mem_nil _⟩
    · refine ⟨earlier, before ++ [op], by rw [List.append_assoc, List.cons_append], ?_⟩
      intro other member
      rcases List.mem_append.mp member with before | last
      · exact others other before
      · rwa [List.mem_singleton.mp last]

theorem gone_concat : Gone (ops ++ [op]) key ↔
    op = .remove key ∨ op.key ≠ key ∧ Gone ops key := by
  constructor
  · intro gone
    have before (differs : op.key ≠ key) : Gone ops key := by
      intro earlier value later same
      have removed : .remove key ∈ later ++ [op] := by
        apply gone earlier value
        rw [same, List.append_assoc, List.cons_append]
      rcases List.mem_append.mp removed with removed | last
      · exact removed
      · exact absurd (congrArg MapOp.key (List.mem_singleton.mp last)).symm differs
    cases op with
    | put other value =>
        have differs : other ≠ key := by
          rintro rfl
          exact List.not_mem_nil (gone ops value [] rfl)
        exact .inr ⟨differs, before differs⟩
    | remove other =>
        by_cases same : other = key
        · exact .inl (congrArg MapOp.remove same)
        · exact .inr ⟨same, before same⟩
  · intro either earlier value later same
    rcases concat_eq_append_cons_iff.mp same with ⟨-, rfl, -⟩ | ⟨before, rfl, whole⟩
    · rcases either with put | ⟨differs, -⟩
      · cases put
      · exact absurd rfl differs
    · rcases either with rfl | ⟨-, gone⟩
      · exact List.mem_append_right _ (List.mem_singleton_self _)
      · exact List.mem_append_left _ (gone earlier value before whole)

theorem insertedAt_concat : InsertedAt (ops ++ [op]) key index ↔
    (op ≠ .remove key ∧ InsertedAt ops key index) ∨
      (∃ value, op = .put key value) ∧ Gone ops key ∧ index = ops.length := by
  constructor
  · rintro ⟨earlier, value, later, same, length, gone, kept⟩
    rcases concat_eq_append_cons_iff.mp same with ⟨rfl, put, -⟩ | ⟨before, rfl, whole⟩
    · exact .inr ⟨⟨value, put.symm⟩, gone, length.symm⟩
    · refine .inl ⟨fun removes => kept ?_, earlier, value, before, whole, length, gone, ?_⟩
      · exact List.mem_append_right _ (List.mem_singleton.mpr removes.symm)
      · intro removed
        exact kept (List.mem_append_left _ removed)
  · rintro (⟨keeps, earlier, value, before, rfl, length, gone, kept⟩ |
      ⟨⟨value, rfl⟩, gone, rfl⟩)
    · refine ⟨earlier, value, before ++ [op], ?_, length, gone, fun removed => ?_⟩
      · rw [List.append_assoc, List.cons_append]
      · rcases List.mem_append.mp removed with removed | last
        · exact kept removed
        · exact keeps (List.mem_singleton.mp last).symm
    · exact ⟨ops, value, [], rfl, rfl, gone, List.not_mem_nil⟩

theorem InsertedAt.lt (inserted : InsertedAt ops key index) : index < ops.length := by
  obtain ⟨earlier, value, later, rfl, rfl, -⟩ := inserted
  rw [List.length_append, List.length_cons]
  omega

/-- A key is gone exactly when no operation has inserted it. -/
theorem gone_iff : Gone ops key ↔ ¬ ∃ index, InsertedAt ops key index := by
  constructor
  · rintro gone ⟨index, earlier, value, later, same, -, -, kept⟩
    exact kept (gone earlier value later same)
  · induction ops using List.reverseRecOn with
    | nil =>
        intro _ earlier value later same
        exact absurd same.symm (List.append_ne_nil_of_right_ne_nil _ (List.cons_ne_nil _ _))
    | append_singleton ops op ih =>
        intro none
        by_cases removes : op = .remove key
        · exact gone_concat.mpr (.inl removes)
        · have gone : Gone ops key := by
            apply ih
            rintro ⟨index, inserted⟩
            exact none ⟨index, insertedAt_concat.mpr (.inl ⟨removes, inserted⟩)⟩
          refine gone_concat.mpr (.inr ⟨fun about => ?_, gone⟩)
          cases op with
          | put other value =>
              have puts : ∃ last, MapOp.put other value = .put key last :=
                ⟨value, congrArg (MapOp.put · value) about⟩
              exact none ⟨ops.length, insertedAt_concat.mpr (.inr ⟨puts, gone, rfl⟩)⟩
          | remove other => exact removes (congrArg MapOp.remove about)

theorem insertedAt_put {other : Key} : InsertedAt (ops ++ [.put other value]) key index ↔
    InsertedAt ops key index ∨ other = key ∧ Gone ops key ∧ index = ops.length := by
  have puts : (∃ last, MapOp.put other value = .put key last) ↔ other = key := by
    constructor
    · rintro ⟨last, same⟩
      exact congrArg MapOp.key same
    · rintro rfl
      exact ⟨value, rfl⟩
  have keeps : MapOp.put other value ≠ .remove key := nofun
  rw [insertedAt_concat, puts, and_iff_right keeps]

theorem insertedAt_remove {other : Key} : InsertedAt (ops ++ [.remove other]) key index ↔
    other ≠ key ∧ InsertedAt ops key index := by
  have keeps : (MapOp.remove other : MapOp Key Value) ≠ .remove key ↔ other ≠ key :=
    not_congr ⟨congrArg MapOp.key, congrArg MapOp.remove⟩
  rw [insertedAt_concat, keeps, or_iff_left]
  rintro ⟨⟨last, puts⟩, -⟩
  cases puts

/-- A key that is there has been inserted once since its last removal. -/
theorem InsertedAt.unique {i j : Nat} (first : InsertedAt ops key i)
    (second : InsertedAt ops key j) : i = j := by
  induction ops using List.reverseRecOn with
  | nil => exact absurd first.lt (Nat.not_lt_zero i)
  | append_singleton ops op ih =>
      rcases insertedAt_concat.mp first with ⟨-, earlier⟩ | ⟨-, gone, rfl⟩
      · rcases insertedAt_concat.mp second with ⟨-, earlier'⟩ | ⟨-, gone, -⟩
        · exact ih earlier earlier'
        · exact absurd ⟨i, earlier⟩ (gone_iff.mp gone)
      · rcases insertedAt_concat.mp second with ⟨-, earlier'⟩ | ⟨-, -, rfl⟩
        · exact absurd ⟨j, earlier'⟩ (gone_iff.mp gone)
        · rfl

/-! ## Rows that represent a map -/

section Rows

variable {Row : Type*} {name : Row → Key} {held : Row → Value} {rows : List Row} {row : Row}

/-- Each key has one row, which holds the value that was put last, and the rows are in the
order in which their keys were inserted. -/
structure Represents (name : Row → Key) (held : Row → Value) (ops : List (MapOp Key Value))
    (rows : List Row) : Prop where
  distinct : Distinct name rows
  values : ∀ row, row ∈ rows ↔ LastPut ops (name row) (held row)
  present : ∀ key, key ∈ rows.map name ↔ ∃ index, InsertedAt ops key index
  order : (rows.map name).Pairwise fun first second =>
    ∀ i j, InsertedAt ops first i → InsertedAt ops second j → i < j

theorem Represents.nil : Represents name held [] [] where
  distinct := Distinct.nil name
  values := by
    refine fun row => iff_of_false List.not_mem_nil ?_
    rintro ⟨earlier, later, same, -⟩
    exact List.append_ne_nil_of_right_ne_nil _ (List.cons_ne_nil _ _) same.symm
  present := by
    refine fun key => iff_of_false List.not_mem_nil ?_
    rintro ⟨index, inserted⟩
    exact Nat.not_lt_zero index inserted.lt
  order := List.Pairwise.nil

theorem Represents.gone_iff (represents : Represents name held ops rows) :
    Gone ops key ↔ key ∉ rows.map name := by
  rw [MapHistory.gone_iff, represents.present]

variable [DecidableEq Key]

/-- **Putting a row** in place represents the map with its value put. -/
theorem Represents.put {change : Row → Row} (represents : Represents name held ops rows)
    (replaced : ∀ old, name old = name row → change old = row)
    (determined : ∀ first second, name first = name second → held first = held second →
      first = second) :
    Represents name held (ops ++ [.put (name row) (held row)])
      (upsert name change row rows) := by
  have known (key : Key) (index : Nat) (member : key ∈ rows.map name) :
      InsertedAt (ops ++ [.put (name row) (held row)]) key index → InsertedAt ops key index := by
    intro inserted
    rcases insertedAt_put.mp inserted with inserted | ⟨-, gone, -⟩
    · exact inserted
    · exact absurd member (represents.gone_iff.mp gone)
  have order : (rows.map name).Pairwise fun first second =>
      ∀ i j, InsertedAt (ops ++ [.put (name row) (held row)]) first i →
        InsertedAt (ops ++ [.put (name row) (held row)]) second j → i < j := by
    refine represents.order.imp_of_mem fun here there before i j first second => ?_
    exact before i j (known _ i here first) (known _ j there second)
  refine ⟨represents.distinct.upsert replaced, fun other => ?_, fun key => ?_, ?_⟩
  · rw [mem_upsert replaced represents.distinct, lastPut_concat, represents.values, and_comm,
      MapOp.put.injEq]
    refine or_congr ⟨?_, ?_⟩ (and_congr_left fun _ => ne_comm)
    · rintro rfl
      exact ⟨rfl, rfl⟩
    · rintro ⟨sameKey, sameValue⟩
      exact determined other row sameKey.symm sameValue.symm
  · simp only [insertedAt_put, exists_or, ← represents.present, exists_and_left, exists_eq,
      and_true, represents.gone_iff, map_upsert replaced]
    split
    · rename_i found
      refine (or_iff_left ?_).symm
      rintro ⟨rfl, missing⟩
      exact missing found
    · rename_i missing
      rw [List.mem_append, List.mem_singleton]
      refine or_congr_right ⟨?_, ?_⟩
      · rintro rfl
        exact ⟨rfl, missing⟩
      · rintro ⟨rfl, -⟩
        rfl
  · rw [map_upsert replaced]
    split
    · exact order
    · rename_i missing
      refine List.pairwise_append.mpr ⟨order, List.pairwise_singleton _ _, ?_⟩
      intro first here second last i j earlier later
      rw [List.mem_singleton.mp last] at later
      rcases insertedAt_put.mp later with inserted | ⟨-, -, rfl⟩
      · exact absurd ((represents.present _).mpr ⟨j, inserted⟩) missing
      · exact (known first i here earlier).lt

/-- **Removing a key's row** represents the map without the key. -/
theorem Represents.remove (represents : Represents name held ops rows) (key : Key) :
    Represents name held (ops ++ [.remove key]) (erase name key rows) where
  distinct := represents.distinct.erase key
  values := by
    intro row
    rw [mem_erase, lastPut_concat, represents.values, and_comm, or_iff_right nofun]
    exact and_congr_left fun _ => ne_comm
  present := by
    intro other
    simp only [insertedAt_remove, exists_and_left, ← represents.present, List.mem_map, mem_erase]
    constructor
    · rintro ⟨row, ⟨member, differs⟩, rfl⟩
      exact ⟨Ne.symm differs, row, member, rfl⟩
    · rintro ⟨differs, row, member, rfl⟩
      exact ⟨row, ⟨member, Ne.symm differs⟩, rfl⟩
  order := by
    have kept : ((erase name key rows).map name).Sublist (rows.map name) :=
      List.filter_sublist.map name
    refine (represents.order.sublist kept).imp fun before i j first second => ?_
    exact before i j (insertedAt_remove.mp first).2 (insertedAt_remove.mp second).2

/-- Looking a key up finds the row that holds what was put last. -/
theorem Represents.find?_eq_some_iff (represents : Represents name held ops rows) :
    rows.find? (name · = key) = some row ↔ name row = key ∧ LastPut ops key (held row) := by
  constructor
  · intro found
    have same := List.find?_some found
    obtain rfl := of_decide_eq_true same
    exact ⟨rfl, (represents.values row).mp (List.mem_of_find?_eq_some found)⟩
  · rintro ⟨rfl, last⟩
    have member := (represents.values row).mpr last
    have present : ∃ other ∈ rows, name other = name row := ⟨row, member, rfl⟩
    obtain ⟨first, here, same, found⟩ := exists_find? present
    rwa [represents.distinct.eq here member same] at found

end Rows

end MapHistory
