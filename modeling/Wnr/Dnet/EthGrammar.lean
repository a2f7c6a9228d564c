import Mathlib.Data.List.Forall2
import Wnr.Dnet.Eth

/-! # The texts that are read as MAC addresses

A MAC address is written as six groups of hexadecimal digits between colons or dashes,
or as twelve digits (`Wnr.Dnet.MacText`). Every such text is read, and a text that is
read is one unless a plus sign before a group or a character between the digits was
skipped (`Wnr.Dnet.ethPton_exact_iff`).
-/

namespace Wnr.Dnet

open Text

/-- The digits of a pair denote an octet. -/
def IsPair (pair : List Char) (octet : UInt8) : Prop := pair.length = 2 ∧ IsHexByte pair octet

/-- The text of a MAC address: six groups of digits between colons or dashes, or twelve
digits. -/
inductive MacText : List Char → EthAddr → Prop
  | separated {sep : Char} {groups : List (List Char)} {addr : EthAddr}
      (known : sep = ':' ∨ sep = '-')
      (octets : List.Forall₂ IsHexByte groups addr.data.toList) :
      MacText ([sep].intercalate groups) addr
  | compact {pairs : List (List Char)} {addr : EthAddr}
      (octets : List.Forall₂ IsPair pairs addr.data.toList) : MacText pairs.flatten addr

/-- A hexadecimal digit, as the filter of the source sees it. -/
def isHexDigit (c : Char) : Bool := (hexDigit c).isSome

/-- The group denotes an octet once a plus sign before it is skipped. -/
def IsSigned (group : List Char) (octet : UInt8) : Prop := IsHexByte (dropPlus group) octet

/-- A text that is read as a MAC address: as the grammar, but plus signs before the groups and,
without separators, everything between the digits are skipped. -/
inductive ReadAs : List Char → EthAddr → Prop
  | separated {sep : Char} {groups : List (List Char)} {addr : EthAddr}
      (known : sep = ':' ∨ sep = '-')
      (octets : List.Forall₂ IsSigned groups addr.data.toList) :
      ReadAs ([sep].intercalate groups) addr
  | compact {text : List Char} {pairs : List (List Char)} {addr : EthAddr}
      (noColon : ':' ∉ text) (noDash : '-' ∉ text) (digits : text.filter isHexDigit = pairs.flatten)
      (octets : List.Forall₂ IsPair pairs addr.data.toList) : ReadAs text addr

/-- A text that is none of a MAC address, and is read as one: there is a plus sign before one of
six groups, or another character beside twelve digits. -/
inductive Misread : List Char → Prop
  | plus {sep : Char} {groups : List (List Char)} {addr : EthAddr}
      (known : sep = ':' ∨ sep = '-')
      (octets : List.Forall₂ IsSigned groups addr.data.toList)
      (signed : ∃ group ∈ groups, '+' ∈ group) : Misread ([sep].intercalate groups)
  | between {text : List Char} (noColon : ':' ∉ text) (noDash : '-' ∉ text)
      (twelve : (text.filter isHexDigit).length = 12)
      (other : ∃ c ∈ text, isHexDigit c = false) : Misread text

/-! ## Six octets -/

theorem ethOctets_eq_some_iff {sep : Char} {s : List Char} {addr : EthAddr} :
    ethOctets sep s = some addr ↔
      List.Forall₂ (fun group octet => parseHexU8 group = some octet) (s.splitOn sep)
        addr.data.toList := by
  obtain ⟨octets⟩ := addr
  obtain ⟨a, b, c, d, e, f, rfl⟩ := exists_six octets
  unfold ethOctets
  generalize s.splitOn sep = groups
  split
  · simp only [Option.bind_eq_bind, Option.bind_eq_some_iff, Option.pure_def, Option.some.injEq]
    constructor
    · rintro ⟨_, first, _, second, _, third, _, fourth, _, fifth, _, sixth, same⟩
      cases same
      exact .cons first (.cons second (.cons third (.cons fourth (.cons fifth (.cons sixth .nil)))))
    · rintro (_ | ⟨first, _ | ⟨second, _ | ⟨third, _ | ⟨fourth, _ | ⟨fifth, _ | ⟨sixth, _⟩⟩⟩⟩⟩⟩)
      exact ⟨_, first, _, second, _, third, _, fourth, _, fifth, _, sixth, rfl⟩
  · rename_i notSix
    refine iff_of_false nofun ?_
    rintro (_ | ⟨_, _ | ⟨_, _ | ⟨_, _ | ⟨_, _ | ⟨_, _ | ⟨_, _ | _⟩⟩⟩⟩⟩⟩)
    exact notSix _ _ _ _ _ _ rfl

/-- Two halves make the octet. -/
theorem toNat_halves {high low : UInt8} (small : high.toNat < 16) (small' : low.toNat < 16) :
    (high <<< 4 ||| low).toNat = 16 * high.toNat + low.toNat := by
  have all : ∀ high < 16, ∀ low < 16,
      (UInt8.ofNat high <<< 4 ||| UInt8.ofNat low).toNat = 16 * high + low := by decide
  have made := all high.toNat small low.toNat small'
  rwa [UInt8.ofNat_toNat, UInt8.ofNat_toNat] at made

/-- Two digits are read as the octet that they denote. -/
theorem hexOctet_eq_some_iff {hi lo : Char} {octet : UInt8} :
    hexOctet hi lo = some octet ↔ IsHexByte [hi, lo] octet := by
  unfold hexOctet
  simp only [Option.bind_eq_bind, Option.bind_eq_some_iff, Option.pure_def, Option.some.injEq,
    parseHexU8_singleton, isHexByte_pair_iff]
  constructor
  · rintro ⟨high, known, low, known', rfl⟩
    have small := hexDigit_lt known'
    rw [toNat_halves (hexDigit_lt known) small, known, known', Option.some_inj, Option.some_inj]
    omega
  · rintro ⟨known, known'⟩
    have bound := octet.toNat_lt
    have high : (UInt8.ofNat (octet.toNat / 16)).toNat = octet.toNat / 16 :=
      UInt8.toNat_ofNat_of_lt' (show octet.toNat / 16 < 256 by omega)
    have low : (UInt8.ofNat (octet.toNat % 16)).toNat = octet.toNat % 16 :=
      UInt8.toNat_ofNat_of_lt' (show octet.toNat % 16 < 256 by omega)
    refine ⟨_, high.symm ▸ known, _, low.symm ▸ known', UInt8.toNat_inj.mp ?_⟩
    rw [toNat_halves (by omega) (by omega), high, low]
    omega

theorem exists_pairs {pairs : List (List Char)} {a b c d e f : UInt8}
    (octets : List.Forall₂ IsPair pairs #v[a, b, c, d, e, f].toList) :
    ∃ a₁ a₂ b₁ b₂ c₁ c₂ d₁ d₂ e₁ e₂ f₁ f₂,
      pairs = [[a₁, a₂], [b₁, b₂], [c₁, c₂], [d₁, d₂], [e₁, e₂], [f₁, f₂]] ∧
        IsHexByte [a₁, a₂] a ∧ IsHexByte [b₁, b₂] b ∧ IsHexByte [c₁, c₂] c ∧
          IsHexByte [d₁, d₂] d ∧ IsHexByte [e₁, e₂] e ∧ IsHexByte [f₁, f₂] f := by
  obtain _ | ⟨⟨two, first⟩, _ | ⟨⟨two', second⟩, _ | ⟨⟨two'', third⟩, _ | ⟨⟨two₃, fourth⟩,
    _ | ⟨⟨two₄, fifth⟩, _ | ⟨⟨two₅, sixth⟩, _ | _⟩⟩⟩⟩⟩⟩ := octets
  obtain ⟨_, _, rfl⟩ := List.length_eq_two.mp two
  obtain ⟨_, _, rfl⟩ := List.length_eq_two.mp two'
  obtain ⟨_, _, rfl⟩ := List.length_eq_two.mp two''
  obtain ⟨_, _, rfl⟩ := List.length_eq_two.mp two₃
  obtain ⟨_, _, rfl⟩ := List.length_eq_two.mp two₄
  obtain ⟨_, _, rfl⟩ := List.length_eq_two.mp two₅
  exact ⟨_, _, _, _, _, _, _, _, _, _, _, _, rfl, first, second, third, fourth, fifth, sixth⟩

/-- Without separators, the twelve digits of the text are read in pairs. -/
theorem ethPton_without_separators {s : List Char} {addr : EthAddr} (noColon : ':' ∉ trim s)
    (noDash : '-' ∉ trim s) :
    ethPton s = some addr ↔ ∃ pairs : List (List Char),
      (trim s).filter isHexDigit = pairs.flatten ∧ List.Forall₂ IsPair pairs addr.data.toList := by
  obtain ⟨octets⟩ := addr
  obtain ⟨a, b, c, d, e, f, rfl⟩ := exists_six octets
  have filter : isHexDigit = fun c => (hexDigit c).isSome := rfl
  simp only [ethPton, if_neg noColon, if_neg noDash, filter]
  generalize (trim s).filter (fun c => (hexDigit c).isSome) = digits
  split
  · simp only [Option.bind_eq_bind, Option.bind_eq_some_iff, Option.pure_def, Option.some.injEq,
      hexOctet_eq_some_iff]
    constructor
    · rintro ⟨_, first, _, second, _, third, _, fourth, _, fifth, _, sixth, same⟩
      cases same
      exact ⟨_, rfl, .cons ⟨rfl, first⟩ (.cons ⟨rfl, second⟩ (.cons ⟨rfl, third⟩
        (.cons ⟨rfl, fourth⟩ (.cons ⟨rfl, fifth⟩ (.cons ⟨rfl, sixth⟩ .nil)))))⟩
    · rintro ⟨pairs, same, octets⟩
      obtain ⟨_, _, _, _, _, _, _, _, _, _, _, _, rfl, first, second, third, fourth, fifth,
        sixth⟩ := exists_pairs octets
      cases same
      exact ⟨_, first, _, second, _, third, _, fourth, _, fifth, _, sixth, rfl⟩
  · rename_i notTwelve
    refine iff_of_false nofun ?_
    rintro ⟨pairs, rfl, octets⟩
    obtain ⟨_, _, _, _, _, _, _, _, _, _, _, _, rfl, -⟩ := exists_pairs octets
    exact notTwelve _ _ _ _ _ _ _ _ _ _ _ _ rfl

/-! ## What is read -/

/-- What every part of a text has that denotes an octet. -/
theorem forall_parts {denotes : List Char → UInt8 → Prop} {has : List Char → Prop}
    {parts : List (List Char)} {octets : List UInt8}
    (each : ∀ part octet, denotes part octet → has part)
    (all : List.Forall₂ denotes parts octets) : ∀ part ∈ parts, has part :=
  ((List.forall₂_and_left _ _).mp
    (all.imp fun part octet denoted => ⟨each part octet denoted, denoted⟩)).1

theorem IsSigned.char {group : List Char} {octet : UInt8} (signed : IsSigned group octet) :
    ∀ c ∈ group, isHexDigit c = true ∨ c = '+' := by
  intro c member
  rcases mem_dropPlus member with plus | inside
  · exact .inr plus
  · exact .inl (signed.digits c inside)

/-- A group without a plus sign is read as it stands. -/
theorem isSigned_iff {group : List Char} {octet : UInt8} :
    IsSigned group octet ∧ '+' ∉ group ↔ IsHexByte group octet := by
  constructor
  · rintro ⟨signed, plain⟩
    rwa [IsSigned, dropPlus_of_not_mem plain] at signed
  · intro isByte
    refine ⟨?_, isByte.plain⟩
    rwa [IsSigned, dropPlus_of_not_mem isByte.plain]

variable {s text : List Char} {addr : EthAddr} {sep : Char} {groups : List (List Char)}

theorem char_of_signed (octets : List.Forall₂ IsSigned groups addr.data.toList) :
    ∀ group ∈ groups, ∀ c ∈ group, isHexDigit c = true ∨ c = '+' :=
  forall_parts (fun _ _ => IsSigned.char) octets

theorem char_of_hexBytes (octets : List.Forall₂ IsHexByte groups addr.data.toList) :
    ∀ group ∈ groups, ∀ c ∈ group, isHexDigit c = true :=
  forall_parts (fun _ _ => IsHexByte.digits) octets

theorem char_of_pairs (octets : List.Forall₂ IsPair groups addr.data.toList) :
    ∀ pair ∈ groups, ∀ c ∈ pair, isHexDigit c = true :=
  forall_parts (fun _ _ isPair => IsHexByte.digits isPair.2) octets

/-- A separator is none of the characters of a group. -/
theorem separator_apart (known : sep = ':' ∨ sep = '-') : isHexDigit sep = false ∧ sep ≠ '+' := by
  rcases known with rfl | rfl <;> decide

theorem not_mem_of_signed (octets : List.Forall₂ IsSigned groups addr.data.toList) {other : Char}
    (apart : isHexDigit other = false ∧ other ≠ '+') : ∀ group ∈ groups, other ∉ group := by
  intro group of inside
  rcases char_of_signed octets group of other inside with digit | plus
  · exact absurd (apart.1.symm.trans digit) Bool.false_ne_true
  · exact apart.2 plus

/-- A character that is in no group is in the text when it is the separator. -/
theorem mem_groups_iff (octets : List.Forall₂ IsSigned groups addr.data.toList) {other : Char}
    (apart : isHexDigit other = false ∧ other ≠ '+') :
    other ∈ [sep].intercalate groups ↔ other = sep := by
  constructor
  · intro member
    rcases eq_or_mem_of_mem_intercalate member with same | ⟨group, of, inside⟩
    · exact same
    · exact absurd inside (not_mem_of_signed octets apart group of)
  · rintro rfl
    obtain ⟨octets'⟩ := addr
    obtain ⟨a, b, c, d, e, f, rfl⟩ := exists_six octets'
    cases octets with
    | cons first rest =>
        cases rest with
        | cons second rest =>
            rw [List.intercalate_cons_cons, List.append_assoc]
            exact List.mem_append_right _ (List.mem_append_left _ List.mem_cons_self)

/-- Splitting finds the groups. -/
theorem splitOn_groups (known : sep = ':' ∨ sep = '-')
    (octets : List.Forall₂ IsSigned groups addr.data.toList) :
    ([sep].intercalate groups).splitOn sep = groups := by
  apply List.splitOn_intercalate
  · exact not_mem_of_signed octets (separator_apart known)
  · rintro rfl
    have six := octets.length_eq
    rw [Vector.length_toList] at six
    cases six

/-- **What is read**, for every text. -/
theorem ethPton_eq_some_iff : ethPton s = some addr ↔ ReadAs (trim s) addr := by
  have octets_iff (sep : Char) : ethOctets sep (trim s) = some addr ↔
      List.Forall₂ IsSigned ((trim s).splitOn sep) addr.data.toList := by
    simp only [ethOctets_eq_some_iff, parseHexU8_eq_some_iff]
    rfl
  have joined (sep : Char) : [sep].intercalate ((trim s).splitOn sep) = trim s :=
    List.intercalate_splitOn sep
  constructor
  · intro read
    by_cases colon : ':' ∈ trim s
    · simp only [ethPton, if_pos colon] at read
      rw [← joined ':']
      exact .separated (.inl rfl) ((octets_iff ':').mp read)
    · by_cases dash : '-' ∈ trim s
      · simp only [ethPton, if_neg colon, if_pos dash] at read
        rw [← joined '-']
        exact .separated (.inr rfl) ((octets_iff '-').mp read)
      · obtain ⟨pairs, digits, octets⟩ := (ethPton_without_separators colon dash).mp read
        exact .compact colon dash digits octets
  · intro readAs
    generalize trimmed : trim s = text at readAs
    cases readAs with
    | @separated sep groups _ known octets =>
        have read : ethOctets sep (trim s) = some addr := by
          rw [octets_iff, trimmed, splitOn_groups known octets]
          exact octets
        have present : ':' ∈ trim s ↔ ':' = sep := by
          rw [trimmed]
          exact mem_groups_iff octets (by decide)
        have present' : '-' ∈ trim s ↔ '-' = sep := by
          rw [trimmed]
          exact mem_groups_iff octets (by decide)
        rcases known with rfl | rfl
        · simp only [ethPton, if_pos (present.mpr rfl)]
          exact read
        · have noColon : ':' ∉ trim s := fun member => absurd (present.mp member) (by decide)
          simp only [ethPton, if_neg noColon, if_pos (present'.mpr rfl)]
          exact read
    | compact noColon noDash digits octets =>
        subst trimmed
        exact (ethPton_without_separators noColon noDash).mpr ⟨_, digits, octets⟩

/-! ## The grammar -/

/-- A character of the grammar. -/
def IsMacChar (c : Char) : Prop := isHexDigit c = true ∨ c = ':' ∨ c = '-'

instance (c : Char) : Decidable (IsMacChar c) := inferInstanceAs (Decidable (_ ∨ _))

theorem MacText.char (isMac : MacText text addr) : ∀ c ∈ text, IsMacChar c := by
  intro c member
  cases isMac with
  | separated known octets =>
      rcases eq_or_mem_of_mem_intercalate member with rfl | ⟨group, of, inside⟩
      · exact .inr known
      · exact .inl (char_of_hexBytes octets group of c inside)
  | compact octets =>
      obtain ⟨pair, of, inside⟩ := List.mem_flatten.mp member
      exact .inl (char_of_pairs octets pair of c inside)

/-- The grammar is read. -/
theorem MacText.readAs (isMac : MacText text addr) : ReadAs text addr := by
  cases isMac with
  | separated known octets =>
      exact .separated known (octets.imp fun _ _ isByte => (isSigned_iff.mpr isByte).1)
  | @compact pairs _ octets =>
      have digits : ∀ c ∈ pairs.flatten, isHexDigit c = true := by
        intro c member
        obtain ⟨pair, of, inside⟩ := List.mem_flatten.mp member
        exact char_of_pairs octets pair of c inside
      refine .compact ?_ ?_ (List.filter_eq_self.mpr digits) octets
      · intro colon
        cases digits ':' colon
      · intro dash
        cases digits '-' dash

/-- Of the texts that are read, the grammar has those in which nothing is skipped. -/
theorem ReadAs.macText_or_misread (readAs : ReadAs text addr) :
    MacText text addr ∨ Misread text := by
  cases readAs with
  | @separated sep groups _ known octets =>
      by_cases signed : ∃ group ∈ groups, '+' ∈ group
      · exact .inr (.plus known octets signed)
      · have plain : ∀ group ∈ groups, '+' ∉ group := fun group of plus => signed ⟨group, of, plus⟩
        refine .inl (.separated known ?_)
        have both := (List.forall₂_and_left _ _).mpr ⟨plain, octets⟩
        exact both.imp fun _ _ each => isSigned_iff.mp ⟨each.2, each.1⟩
  | @compact _ pairs _ noColon noDash digits octets =>
      by_cases other : ∃ c ∈ text, isHexDigit c = false
      · refine .inr (.between noColon noDash ?_ other)
        obtain ⟨octets'⟩ := addr
        obtain ⟨a, b, c, d, e, f, rfl⟩ := exists_six octets'
        obtain ⟨_, _, _, _, _, _, _, _, _, _, _, _, rfl, -⟩ := exists_pairs octets
        rw [digits]
        rfl
      · have all : ∀ c ∈ text, isHexDigit c = true := by
          intro c member
          by_contra differs
          exact other ⟨c, member, Bool.not_eq_true _ ▸ differs⟩
        rw [List.filter_eq_self.mpr all] at digits
        rw [digits]
        exact .inl (.compact octets)

/-- Two digits denote an octet. -/
theorem exists_octet {hi lo : Char} (high : isHexDigit hi = true) (low : isHexDigit lo = true) :
    ∃ octet, IsPair [hi, lo] octet := by
  obtain ⟨x, known⟩ := Option.isSome_iff_exists.mp high
  obtain ⟨y, known'⟩ := Option.isSome_iff_exists.mp low
  have small := hexDigit_lt known
  have small' := hexDigit_lt known'
  have value : (UInt8.ofNat (16 * x + y)).toNat = 16 * x + y :=
    UInt8.toNat_ofNat_of_lt' (show 16 * x + y < 256 by omega)
  refine ⟨UInt8.ofNat (16 * x + y), rfl, isHexByte_pair_iff.mpr ⟨?_, ?_⟩⟩
  · rw [known, value, Option.some_inj]
    omega
  · rw [known', value, Option.some_inj]
    omega

/-- An even number of digits denotes octets. -/
theorem exists_octets {count : Nat} {digits : List Char} (even : digits.length = 2 * count)
    (all : ∀ c ∈ digits, isHexDigit c = true) :
    ∃ pairs octets, digits = List.flatten pairs ∧ List.Forall₂ IsPair pairs octets ∧
      octets.length = count := by
  induction count generalizing digits with
  | zero =>
      rw [List.eq_nil_of_length_eq_zero even]
      exact ⟨[], [], rfl, .nil, rfl⟩
  | succ count ih =>
      match digits, even with
      | hi :: lo :: rest, even =>
          rw [List.forall_mem_cons, List.forall_mem_cons] at all
          have fewer : rest.length = 2 * count := by
            rw [List.length_cons, List.length_cons] at even
            omega
          obtain ⟨octet, isPair⟩ := exists_octet all.1 all.2.1
          obtain ⟨pairs, octets, rfl, denoted, counted⟩ := ih fewer all.2.2
          exact ⟨[hi, lo] :: pairs, octet :: octets, rfl, .cons isPair denoted,
            congrArg Nat.succ counted⟩

/-- A misread text is read, and is none of a MAC address. -/
theorem Misread.readAs (misread : Misread text) :
    ∃ addr, ReadAs text addr ∧ ¬ MacText text addr := by
  cases misread with
  | @plus sep groups addr known octets signed =>
      refine ⟨addr, .separated known octets, fun isMac => ?_⟩
      obtain ⟨group, of, plus⟩ := signed
      exact absurd (isMac.char '+' (mem_intercalate_of_mem of plus)) (by decide)
  | between noColon noDash twelve other =>
      have all : ∀ c ∈ text.filter isHexDigit, isHexDigit c = true :=
        fun c member => (List.mem_filter.mp member).2
      obtain ⟨pairs, octets, digits, denoted, six⟩ := @exists_octets 6 _ twelve all
      refine ⟨⟨⟨octets.toArray, six⟩⟩, .compact noColon noDash digits denoted, fun isMac => ?_⟩
      obtain ⟨c, member, noDigit⟩ := other
      rcases isMac.char c member with digit | rfl | rfl
      · exact absurd (noDigit.symm.trans digit) Bool.false_ne_true
      · exact noColon member
      · exact noDash member

/-- **The grammar.** Exactly the MAC addresses of the grammar are read, with their octets, unless
the text is one in which a plus sign or another character beside the digits is skipped. -/
theorem ethPton_exact_iff (s : List Char) :
    (∀ addr, ethPton s = some addr ↔ MacText (trim s) addr) ↔ ¬ Misread (trim s) := by
  simp only [ethPton_eq_some_iff]
  constructor
  · intro exact misread
    obtain ⟨addr, readAs, noMac⟩ := misread.readAs
    exact noMac ((exact addr).mp readAs)
  · intro plain addr
    refine ⟨fun readAs => ?_, MacText.readAs⟩
    exact readAs.macText_or_misread.resolve_right plain

/-- Signed groups and digits among other characters are read. -/
theorem ethPton_misreads :
    ¬ (∀ addr, ethPton "+0:+1:+2:+3:+4:+5".toList = some addr ↔
        MacText (trim "+0:+1:+2:+3:+4:+5".toList) addr) ∧
      ¬ (∀ addr, ethPton "00 11 22 33 44 55, or so".toList = some addr ↔
        MacText (trim "00 11 22 33 44 55, or so".toList) addr) := by
  refine ⟨fun exact => ?_, fun exact => ?_⟩
  · have isMac := (exact ⟨#v[0, 1, 2, 3, 4, 5]⟩).mp (by decide +kernel)
    exact absurd (isMac.char '+' (by decide +kernel)) (by decide)
  · have isMac := (exact ⟨#v[0x00, 0x11, 0x22, 0x33, 0x44, 0x55]⟩).mp (by decide +kernel)
    exact absurd (isMac.char ' ' (by decide +kernel)) (by decide)

end Wnr.Dnet
