import Mathlib.Data.List.Infix

/-! # Lines in a stream that comes in chunks

A line ends at the first `stop`, or after a number of items that contain none. A reader
that collects chunks until it has a line at least may have more than the line: it has
exactly the line when a chunk ends where the line does
(`Lines.flatten_eq_line_iff`).
-/

namespace Lines

variable {α : Type*} [DecidableEq α] (stop : α) (limit : Nat)

/-- The first items up to and including the first `stop`, or the first `limit` ones
where they contain none. -/
def line (items : List α) : List α :=
  if stop ∈ items.take limit then items.takeWhile (· ≠ stop) ++ [stop] else items.take limit

/-- There is a line at the front. -/
def Complete (items : List α) : Prop := limit ≤ items.length ∨ stop ∈ items

variable {stop limit} {items front back : List α}

theorem line_cons (item : α) (items : List α) :
    line stop (limit + 1) (item :: items) =
      if item = stop then [stop] else item :: line stop limit items := by
  unfold line
  rw [List.take_succ_cons]
  by_cases here : item = stop
  · rw [if_pos (List.mem_cons.mpr (.inl here.symm)), if_pos here,
      List.takeWhile_cons_of_neg (by simpa using here), List.nil_append]
  · rw [if_neg here, List.takeWhile_cons_of_pos (by simpa using here)]
    by_cases later : stop ∈ items.take limit
    · rw [if_pos (List.mem_cons_of_mem item later), if_pos later, List.cons_append]
    · rw [if_neg later, if_neg]
      rw [List.mem_cons, not_or]
      exact ⟨fun same => here same.symm, later⟩

theorem line_zero (items : List α) : line stop 0 items = [] := by
  unfold line
  rw [List.take_zero, if_neg (List.not_mem_nil)]

theorem line_nil : line stop limit ([] : List α) = [] := by
  unfold line
  rw [List.take_nil, if_neg (List.not_mem_nil)]

omit [DecidableEq α] in
theorem Complete.mono (complete : Complete stop limit front) (first : front <+: items) :
    Complete stop limit items :=
  complete.imp (fun enough => enough.trans first.length_le) fun member => first.subset member

omit [DecidableEq α] in
theorem complete_cons {item : α} :
    Complete stop (limit + 1) (item :: items) ↔ item = stop ∨ Complete stop limit items := by
  unfold Complete
  rw [List.length_cons, Nat.add_le_add_iff_right, List.mem_cons, eq_comm]
  exact or_left_comm

theorem line_front (items : List α) : line stop limit items <+: items := by
  induction items generalizing limit with
  | nil => rw [line_nil]
  | cons item items ih =>
      cases limit with
      | zero =>
          rw [line_zero]
          exact List.nil_prefix
      | succ limit =>
          rw [line_cons]
          split
          · rename_i here
            rw [here]
            exact List.prefix_append [stop] items
          · exact (List.prefix_cons_inj item).mpr ih

/-- What comes after a complete line does not matter to it. -/
theorem line_append (complete : Complete stop limit front) (back : List α) :
    line stop limit (front ++ back) = line stop limit front := by
  induction front generalizing limit with
  | nil =>
      rcases complete with enough | member
      · obtain rfl := Nat.le_zero.mp enough
        rw [line_zero, line_zero]
      · cases member
  | cons item front ih =>
      cases limit with
      | zero => rw [line_zero, line_zero]
      | succ limit =>
          rw [List.cons_append, line_cons, line_cons]
          split
          · rfl
          · rename_i there
            rw [ih ((complete_cons.mp complete).resolve_left there)]

/-- A line is complete. -/
theorem complete_line (complete : Complete stop limit items) :
    Complete stop limit (line stop limit items) := by
  induction items generalizing limit with
  | nil => rwa [line_nil]
  | cons item items ih =>
      cases limit with
      | zero => exact .inl (Nat.zero_le _)
      | succ limit =>
          rw [line_cons]
          split
          · exact .inr List.mem_cons_self
          · rename_i there
            exact complete_cons.mpr (.inr (ih ((complete_cons.mp complete).resolve_left there)))

omit [DecidableEq α] in
/-- Two fronts of one list are the same when they are equally long. -/
theorem prefix_unique (first : front <+: items) (second : back <+: items)
    (same : front.length = back.length) : front = back :=
  (List.prefix_of_prefix_length_le first second same.le).eq_of_length same

/-- A chunk ends after that many items. -/
def EndsAt (chunks : List (List α)) (count : Nat) : Prop :=
  ∃ front, front <+: chunks ∧ front.flatten.length = count

omit [DecidableEq α] in
/-- Chunks around do not matter to where the others end. -/
theorem endsAt_append {before chunks after : List (List α)} {count : Nat} (pos : 0 < count)
    (fits : count ≤ chunks.flatten.length) :
    EndsAt (before ++ chunks ++ after) (before.flatten.length + count) ↔ EndsAt chunks count := by
  constructor
  · rintro ⟨front, first, ends⟩
    rw [List.append_assoc] at first
    rcases List.prefix_or_prefix_of_prefix first (List.prefix_append before _) with
      early | ⟨front, rfl⟩
    · have short := early.flatten.length_le
      omega
    rw [List.flatten_append, List.length_append, Nat.add_left_cancel_iff] at ends
    rw [List.prefix_append_right_inj] at first
    rcases List.prefix_or_prefix_of_prefix first (List.prefix_append chunks _) with within | late
    · exact ⟨front, within, ends⟩
    · have long := late.flatten.length_le
      exact ⟨chunks, List.prefix_rfl, by omega⟩
  · rintro ⟨front, first, ends⟩
    refine ⟨before ++ front, ?_, ?_⟩
    · rw [List.append_assoc, List.prefix_append_right_inj]
      exact first.trans (List.prefix_append ..)
    · rw [List.flatten_append, List.length_append, ends]

variable {earlier : List (List α)} {last : List α}

/-- **Chunks that have just become complete are exactly the line** when a chunk ends where
the line ends. -/
theorem flatten_eq_line_iff (short : ¬ Complete stop limit earlier.flatten)
    (complete : Complete stop limit (earlier ++ [last]).flatten)
    (read : (earlier ++ [last]).flatten <+: items) :
    (earlier ++ [last]).flatten = line stop limit items ↔
      EndsAt (earlier ++ [last]) (line stop limit items).length := by
  constructor
  · intro same
    exact ⟨_, List.prefix_rfl, by rw [same]⟩
  · rintro ⟨front, first, ends⟩
    have same : front.flatten = line stop limit items :=
      prefix_unique (first.flatten.trans read) (line_front items) ends
    rcases List.prefix_concat_iff.mp first with rfl | proper
    · exact same
    · obtain ⟨rest, rfl⟩ := read
      rw [line_append complete] at same
      have complete' := complete_line complete
      rw [← same] at complete'
      exact absurd (complete'.mono proper.flatten) short

end Lines
