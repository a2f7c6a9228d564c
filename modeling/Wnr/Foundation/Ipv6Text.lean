import Wnr.Foundation.Text

/-! # The text of IPv6 addresses

Eight groups of up to four hexadecimal digits between colons, of which the last two may
be a dotted address, or fewer with `::` for the others.
-/

namespace Text

/-- One group: up to four hexadecimal digits. -/
structure IsGroup (text : List Char) : Prop where
  nonempty : text ≠ []
  short : text.length ≤ 4
  digits : ∀ c ∈ text, (hexDigit c).isSome

/-- Some number of groups with colons between them; a dotted address stands for two. -/
inductive Groups : Nat → List Char → Prop
  | group {text : List Char} (isGroup : IsGroup text) : Groups 1 text
  | dotted {text : List Char} {address : Ipv4Addr} (read : parseIpv4 text = some address) :
      Groups 2 text
  | cons {text rest : List Char} {count : Nat} (isGroup : IsGroup text)
      (more : Groups count rest) : Groups (count + 1) (text ++ ':' :: rest)

/-- Groups, or no text at all. -/
def SomeGroups (count : Nat) (text : List Char) : Prop := count = 0 ∧ text = [] ∨ Groups count text

/-- The text of an IPv6 address: eight groups, or fewer around `::`. Only the last group may be
a dotted address. -/
inductive Ipv6Text : List Char → Prop
  | full {text : List Char} (groups : Groups 8 text) : Ipv6Text text
  | compressed {front back : Nat} {head tail : List Char} (before : SomeGroups front head)
      (plain : '.' ∉ head) (after : SomeGroups back tail) (fewer : front + back < 8) :
      Ipv6Text (head ++ ':' :: ':' :: tail)

/-- A character of a group, a colon or a dot. -/
def IsIpv6Char (c : Char) : Prop := (hexDigit c).isSome ∨ c = ':' ∨ c = '.'

theorem hexDigit_of_isDigit {c : Char} (digit : c.isDigit = true) : (hexDigit c).isSome := by
  rw [Char.isDigit, Bool.and_eq_true, decide_eq_true_eq, decide_eq_true_eq] at digit
  have decimal : '0' ≤ c ∧ c ≤ '9' := digit
  rw [hexDigit, if_pos decimal, Option.isSome_some]

variable {text : List Char} {count : Nat}

theorem Groups.char (groups : Groups count text) : ∀ c ∈ text, IsIpv6Char c := by
  induction groups with
  | group isGroup => exact fun c member => .inl (isGroup.digits c member)
  | dotted read =>
      intro c member
      rcases isDigit_or_dot_of_parseIpv4 read member with digit | dot
      · exact .inl (hexDigit_of_isDigit digit)
      · exact .inr (.inr dot)
  | cons isGroup more ih =>
      intro c member
      rcases List.mem_append.mp member with inside | later
      · exact .inl (isGroup.digits c inside)
      · rcases List.mem_cons.mp later with colon | rest
        · exact .inr (.inl colon)
        · exact ih c rest

theorem SomeGroups.char (groups : SomeGroups count text) : ∀ c ∈ text, IsIpv6Char c := by
  rcases groups with ⟨-, rfl⟩ | groups
  · exact List.forall_mem_nil _
  · exact groups.char

theorem Ipv6Text.char (isIpv6 : Ipv6Text text) : ∀ c ∈ text, IsIpv6Char c := by
  cases isIpv6 with
  | full groups => exact groups.char
  | compressed before plain after fewer =>
      intro c member
      rcases List.mem_append.mp member with inside | later
      · exact before.char c inside
      · rcases List.mem_cons.mp later with colon | later
        · exact .inr (.inl colon)
        · rcases List.mem_cons.mp later with colon | inside
          · exact .inr (.inl colon)
          · exact after.char c inside

/-- An address has a colon. -/
theorem Ipv6Text.colon (isIpv6 : Ipv6Text text) : ':' ∈ text := by
  cases isIpv6 with
  | full groups =>
      cases groups with
      | cons isGroup more => exact List.mem_append_right _ List.mem_cons_self
  | compressed before plain after fewer => exact List.mem_append_right _ List.mem_cons_self

/-- It is a word. -/
theorem Ipv6Text.isWord (isIpv6 : Ipv6Text text) : IsWord text := by
  refine ⟨List.ne_nil_of_mem isIpv6.colon, fun c member => ?_⟩
  rcases isIpv6.char c member with digit | rfl | rfl
  · exact isWhitespace_of_hexDigit digit
  · rfl
  · rfl

/-- Joined groups. -/
theorem groups_intercalate {parts : List (List Char)} (some : parts ≠ [])
    (groups : ∀ part ∈ parts, IsGroup part) : Groups parts.length ([':'].intercalate parts) := by
  induction parts with
  | nil => exact absurd rfl some
  | cons part parts ih =>
      obtain ⟨isGroup, others⟩ := List.forall_mem_cons.mp groups
      by_cases last : parts = []
      · rw [last, List.intercalate_singleton]
        exact .group isGroup
      · rw [List.intercalate_cons_of_ne_nil last, List.append_assoc]
        exact .cons isGroup (ih last others)

/-! ## What is none -/

theorem IsGroup.noColon (isGroup : IsGroup text) : ':' ∉ text :=
  fun member => absurd (isGroup.digits ':' member) (by decide)

/-- Without dots, groups are what stands between the colons. -/
theorem Groups.length_splitOn (groups : Groups count text) (noDot : '.' ∉ text) :
    (text.splitOn ':').length = count := by
  induction groups with
  | group isGroup => rw [List.splitOn_eq_singleton isGroup.noColon, List.length_singleton]
  | dotted read => exact absurd (dot_mem_of_parseIpv4 read) noDot
  | cons isGroup more ih =>
      rw [List.splitOn_append_cons_self_of_not_mem isGroup.noColon, List.length_cons,
        ih fun dot => noDot (List.mem_append_right _ (List.mem_cons_of_mem _ dot))]

/-- A text without dots whose parts between colons are not empty has eight of them. -/
theorem Ipv6Text.length_splitOn (isIpv6 : Ipv6Text text) (noDot : '.' ∉ text)
    (parts : [] ∉ text.splitOn ':') : (text.splitOn ':').length = 8 := by
  cases isIpv6 with
  | full groups => exact groups.length_splitOn noDot
  | @compressed front back head tail before plain after fewer =>
      refine absurd ?_ parts
      rw [List.splitOn_append_cons_self, List.splitOn_cons_eq_if_modifyHead,
        if_pos (beq_self_eq_true ':')]
      exact List.mem_append_right _ List.mem_cons_self

end Text
