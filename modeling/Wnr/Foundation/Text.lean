import Mathlib.Data.List.Basic
import Mathlib.Data.UInt

/-! # Splitting and reading text

Texts are lists of characters. Splitting at white space, letter case, decimal
numbers and dotted addresses, as the standard library of the modelled programs
reads and prints them.
-/

namespace Text

/-- The characters with the Unicode property `White_Space`. -/
def isWhitespace (c : Char) : Bool :=
  let code := c.toNat
  (9 ≤ code && code ≤ 13) || code == 0x20 || code == 0x85 || code == 0xa0 || code == 0x1680 ||
    (0x2000 ≤ code && code ≤ 0x200a) || code == 0x2028 || code == 0x2029 || code == 0x202f ||
    code == 0x205f || code == 0x3000

/-- `str::split_whitespace`. -/
def splitWhitespace (text : List Char) : List (List Char) :=
  (text.splitOnP isWhitespace).filter (!·.isEmpty)

/-- `str::trim`. -/
def trim (text : List Char) : List Char :=
  ((text.dropWhile isWhitespace).reverse.dropWhile isWhitespace).reverse

/-- Nothing but white space. -/
def Blank (text : List Char) : Prop := ∀ c ∈ text, isWhitespace c = true

instance (text : List Char) : Decidable (Blank text) :=
  decidable_of_iff (text.all isWhitespace = true) List.all_eq_true

/-- A nonempty text without white space. -/
structure IsWord (text : List Char) : Prop where
  nonempty : text ≠ []
  unbroken : ∀ c ∈ text, isWhitespace c = false

instance (text : List Char) : Decidable (IsWord text) :=
  decidable_of_iff (text ≠ [] ∧ text.all (fun c => !isWhitespace c) = true) <| by
    simp only [List.all_eq_true, Bool.not_eq_true']
    exact ⟨fun word => ⟨word.1, word.2⟩, fun word => ⟨word.nonempty, word.unbroken⟩⟩

theorem splitWhitespace_cons_blank {c : Char} (blank : isWhitespace c = true) (text : List Char) :
    splitWhitespace (c :: text) = splitWhitespace text := by
  rw [splitWhitespace, List.splitOnP_cons_eq_if_modifyHead, if_pos blank]
  rfl

theorem splitWhitespace_blank_append {lead : List Char} (blank : Blank lead) (text : List Char) :
    splitWhitespace (lead ++ text) = splitWhitespace text := by
  induction lead with
  | nil => rfl
  | cons c lead ih =>
      rw [List.cons_append, splitWhitespace_cons_blank (blank c List.mem_cons_self)]
      exact ih fun other member => blank other (List.mem_cons_of_mem _ member)

theorem IsWord.kept {word : List Char} (isWord : IsWord word) : (!word.isEmpty) = true := by
  rw [Bool.not_eq_true', List.isEmpty_eq_false_iff]
  exact isWord.nonempty

/-- A word that white space follows is the first of the words. -/
theorem splitWhitespace_word_append {word gap : List Char} (isWord : IsWord word)
    (blank : Blank gap) (apart : gap ≠ []) (rest : List Char) :
    splitWhitespace (word ++ (gap ++ rest)) = word :: splitWhitespace rest := by
  cases gap with
  | nil => exact absurd rfl apart
  | cons c gap =>
      have later : Blank gap := fun other member => blank other (List.mem_cons_of_mem _ member)
      rw [List.cons_append, splitWhitespace,
        List.splitOnP_append_cons_of_forall_mem isWord.unbroken c (blank c List.mem_cons_self),
        List.filter_cons, if_pos isWord.kept]
      exact congrArg (word :: ·) (splitWhitespace_blank_append later rest)

theorem splitWhitespace_word_blank {word trail : List Char} (isWord : IsWord word)
    (blank : Blank trail) : splitWhitespace (word ++ trail) = [word] := by
  cases trail with
  | nil =>
      rw [List.append_nil, splitWhitespace, List.splitOnP_eq_singleton isWord.unbroken,
        List.filter_cons, if_pos isWord.kept, List.filter_nil]
  | cons c trail =>
      have split := splitWhitespace_word_append isWord blank (List.cons_ne_nil c trail) []
      rwa [List.append_nil] at split

/-- White space around a word is trimmed away. -/
theorem trim_word {lead word trail : List Char} (before : Blank lead) (isWord : IsWord word)
    (after : Blank trail) : trim (lead ++ (word ++ trail)) = word := by
  -- A text that starts with a character of a word loses nothing at its front.
  have kept {word : List Char} (isWord : IsWord word) (rest : List Char) :
      (word ++ rest).dropWhile isWhitespace = word ++ rest := by
    cases word with
    | nil => exact absurd rfl isWord.nonempty
    | cons c word =>
        have first := isWord.unbroken c List.mem_cons_self
        rw [List.cons_append, List.dropWhile_cons_of_neg (Bool.eq_false_iff.mp first)]
  have reversed : IsWord word.reverse := by
    refine ⟨mt List.reverse_eq_nil_iff.mp isWord.nonempty, fun c member => ?_⟩
    exact isWord.unbroken c (List.mem_reverse.mp member)
  have last : (word.reverse).dropWhile isWhitespace = word.reverse := by
    have same := kept reversed []
    rwa [List.append_nil] at same
  rw [trim, List.dropWhile_append_of_pos before, kept isWord, List.reverse_append,
    List.dropWhile_append_of_pos fun c member => after c (List.mem_reverse.mp member), last,
    List.reverse_reverse]

/-- A text made of the words in order, with white space between them and perhaps
around them. -/
inductive Spaced : List (List Char) → List Char → Prop
  | last {lead word trail} (before : Blank lead) (after : Blank trail) :
      Spaced [word] (lead ++ (word ++ trail))
  | cons {lead word gap words rest} (before : Blank lead) (between : Blank gap) (apart : gap ≠ [])
      (following : Spaced words rest) : Spaced (word :: words) (lead ++ (word ++ (gap ++ rest)))

/-- Splitting recovers the words, whatever the white space is. -/
theorem splitWhitespace_of_spaced {words : List (List Char)} {text : List Char}
    (spaced : Spaced words text) (areWords : ∀ word ∈ words, IsWord word) :
    splitWhitespace text = words := by
  induction spaced with
  | last before after =>
      rw [splitWhitespace_blank_append before,
        splitWhitespace_word_blank (areWords _ List.mem_cons_self) after]
  | cons before between apart _ ih =>
      rw [splitWhitespace_blank_append before,
        splitWhitespace_word_append (areWords _ List.mem_cons_self) between apart,
        ih fun word member => areWords word (List.mem_cons_of_mem _ member)]

/-- Every character of a text is a separator or in one of the parts. -/
theorem eq_or_mem_splitOn (sep : Char) {c : Char} {text : List Char} (member : c ∈ text) :
    c = sep ∨ ∃ part ∈ text.splitOn sep, c ∈ part := by
  induction text with
  | nil => cases member
  | cons first text ih =>
      rw [List.splitOn_cons_eq_if_modifyHead]
      by_cases separates : first = sep
      · rw [if_pos (beq_iff_eq.mpr separates)]
        rcases List.mem_cons.mp member with rfl | later
        · exact .inl separates
        · rcases ih later with same | ⟨part, of, inside⟩
          · exact .inl same
          · exact .inr ⟨part, List.mem_cons_of_mem _ of, inside⟩
      · rw [if_neg (by rwa [beq_iff_eq])]
        obtain ⟨head, tail, split⟩ :=
          List.exists_cons_of_ne_nil (List.splitOn_ne_nil sep text)
        rw [split, List.modifyHead_cons]
        rcases List.mem_cons.mp member with rfl | later
        · exact .inr ⟨_, List.mem_cons_self, List.mem_cons_self⟩
        · rcases ih later with same | ⟨part, of, inside⟩
          · exact .inl same
          · rw [split] at of
            rcases List.mem_cons.mp of with rfl | other
            · exact .inr ⟨_, List.mem_cons_self, List.mem_cons_of_mem _ inside⟩
            · exact .inr ⟨part, List.mem_cons_of_mem _ other, inside⟩

/-- Every character of joined parts is a separator or in one of them. -/
theorem eq_or_mem_of_mem_intercalate {sep c : Char} {parts : List (List Char)}
    (member : c ∈ [sep].intercalate parts) : c = sep ∨ ∃ part ∈ parts, c ∈ part := by
  induction parts with
  | nil => cases member
  | cons part parts ih =>
      by_cases last : parts = []
      · rw [last, List.intercalate_singleton] at member
        exact .inr ⟨part, List.mem_cons_self, member⟩
      · rw [List.intercalate_cons_of_ne_nil last, List.mem_append, List.mem_append,
          List.mem_singleton] at member
        rcases member with (inside | same) | later
        · exact .inr ⟨part, List.mem_cons_self, inside⟩
        · exact .inl same
        · rcases ih later with same | ⟨other, of, inside⟩
          · exact .inl same
          · exact .inr ⟨other, List.mem_cons_of_mem _ of, inside⟩

/-- The parts do not contain the separator. -/
theorem not_mem_of_mem_splitOn {sep : Char} {text part : List Char}
    (of : part ∈ text.splitOn sep) : sep ∉ part := by
  induction text generalizing part with
  | nil =>
      rw [List.splitOn_nil, List.mem_singleton] at of
      rw [of]
      exact List.not_mem_nil
  | cons c text ih =>
      rw [List.splitOn_cons_eq_if_modifyHead] at of
      split at of
      · rcases List.mem_cons.mp of with rfl | later
        · exact List.not_mem_nil
        · exact ih later
      · rename_i differs
        obtain ⟨head, tail, split⟩ := List.exists_cons_of_ne_nil (List.splitOn_ne_nil sep text)
        rw [split, List.modifyHead_cons] at of
        rw [split] at ih
        rcases List.mem_cons.mp of with rfl | later
        · intro member
          rcases List.mem_cons.mp member with same | inside
          · exact differs (beq_iff_eq.mpr same.symm)
          · exact ih List.mem_cons_self inside
        · exact ih (List.mem_cons_of_mem head later)

/-- A separator stands before every part but the first. -/
theorem intercalate_cons_eq (sep part : List Char) (parts : List (List Char)) :
    sep.intercalate (part :: parts) = part ++ parts.flatMap (sep ++ ·) := by
  induction parts generalizing part with
  | nil => rw [List.intercalate_singleton, List.flatMap_nil, List.append_nil]
  | cons next parts ih =>
      rw [List.intercalate_cons_cons, ih, List.flatMap_cons, List.append_assoc, List.append_assoc]

/-- Joining keeps the parts. -/
theorem mem_intercalate_of_mem {sep c : Char} {part : List Char} {parts : List (List Char)}
    (of : part ∈ parts) (inside : c ∈ part) : c ∈ [sep].intercalate parts := by
  induction parts with
  | nil => cases of
  | cons first parts ih =>
      by_cases last : parts = []
      · subst last
        rw [List.intercalate_singleton, ← List.mem_singleton.mp of]
        exact inside
      · rw [List.intercalate_cons_of_ne_nil last]
        rcases List.mem_cons.mp of with rfl | later
        · exact List.mem_append_left _ (List.mem_append_left _ inside)
        · exact List.mem_append_right _ (ih later)

/-- `str::to_ascii_lowercase`. -/
def toAsciiLowercase (text : List Char) : List Char := text.map Char.toLower

/-- The visible characters of ASCII are no white space. -/
theorem isWhitespace_of_visible {c : Char} (low : 33 ≤ c.toNat) (high : c.toNat ≤ 126) :
    isWhitespace c = false := by
  rw [← Bool.not_eq_true]
  intro blank
  simp only [isWhitespace, Bool.or_eq_true, Bool.and_eq_true, decide_eq_true_eq,
    beq_iff_eq] at blank
  omega

/-- White space has no letter case. -/
theorem toLower_of_isWhitespace {c : Char} (blank : isWhitespace c = true) : c.toLower = c := by
  apply dif_neg
  rintro ⟨above, below⟩
  have low : 65 ≤ c.toNat := above
  have high : c.toNat ≤ 90 := below
  have visible : isWhitespace c = false := isWhitespace_of_visible (by omega) (by omega)
  rw [visible] at blank
  cases blank

theorem isWhitespace_of_isDigit {c : Char} (digit : c.isDigit = true) : isWhitespace c = false := by
  rw [Char.isDigit, Bool.and_eq_true, decide_eq_true_eq, decide_eq_true_eq] at digit
  have low : 48 ≤ c.toNat := digit.1
  have high : c.toNat ≤ 57 := digit.2
  apply isWhitespace_of_visible <;> omega

/-- Letter case does not matter for being a word. -/
theorem isWord_of_toAsciiLowercase {text : List Char} (isWord : IsWord (toAsciiLowercase text)) :
    IsWord text := by
  refine ⟨fun empty => isWord.nonempty (congrArg toAsciiLowercase empty), fun c member => ?_⟩
  rw [← Bool.not_eq_true]
  intro blank
  have kept : c.toLower ∈ toAsciiLowercase text := List.mem_map_of_mem member
  rw [toLower_of_isWhitespace blank] at kept
  exact absurd blank (Bool.eq_false_iff.mp (isWord.unbroken c kept))

/-! ## Decimal numbers -/

/-- A number as it is printed. -/
def decimal (value : Nat) : List Char := Nat.toDigits 10 value

/-- The text after one optional plus sign. -/
def dropPlus : List Char → List Char
  | '+' :: rest => rest
  | text => text

/-- `from_str` of an unsigned type whose values are below `bound`: one optional
plus sign, then digits. -/
def parseUnsigned (bound : Nat) (text : List Char) : Option Nat :=
  let digits := dropPlus text
  if digits ≠ [] ∧ digits.all Char.isDigit ∧ Nat.ofDigitChars 10 digits 0 < bound then
    some (Nat.ofDigitChars 10 digits 0)
  else none

/-- `u16::from_str`. -/
def parseU16 (text : List Char) : Option UInt16 := (parseUnsigned 65536 text).map UInt16.ofNat

theorem isDigit_of_mem_decimal {value : Nat} {c : Char} (member : c ∈ decimal value) :
    c.isDigit = true :=
  Nat.isDigit_of_mem_toDigits (by decide) (by decide) member

theorem dropPlus_of_not_mem {text : List Char} (plain : '+' ∉ text) : dropPlus text = text := by
  unfold dropPlus
  split
  · exact absurd List.mem_cons_self plain
  · rfl

theorem dropPlus_decimal (value : Nat) : dropPlus (decimal value) = decimal value :=
  dropPlus_of_not_mem fun member => absurd (isDigit_of_mem_decimal member) (by decide)

theorem mem_dropPlus {text : List Char} {c : Char} (member : c ∈ text) :
    c = '+' ∨ c ∈ dropPlus text := by
  unfold dropPlus
  split
  · exact List.mem_cons.mp member
  · exact .inr member

theorem parseUnsigned_decimal {bound value : Nat} (below : value < bound) :
    parseUnsigned bound (decimal value) = some value := by
  have read : Nat.ofDigitChars 10 (decimal value) 0 = value := Nat.ofDigitChars_ten_toDigits
  have digits : (decimal value).all Char.isDigit = true :=
    List.all_eq_true.mpr fun _ => isDigit_of_mem_decimal
  rw [parseUnsigned, dropPlus_decimal, if_pos ⟨Nat.toDigits_ne_nil, digits, read.symm ▸ below⟩, read]

theorem parseU16_decimal (value : UInt16) : parseU16 (decimal value.toNat) = some value := by
  rw [parseU16, parseUnsigned_decimal value.toNat_lt, Option.map_some, UInt16.ofNat_toNat]

theorem isDigit_or_plus_of_parseUnsigned {bound value : Nat} {text : List Char} {c : Char}
    (read : parseUnsigned bound text = some value) (member : c ∈ text) :
    c.isDigit = true ∨ c = '+' := by
  rw [parseUnsigned] at read
  split at read
  case isTrue accepted =>
    rcases mem_dropPlus member with plus | inside
    · exact .inr plus
    · exact .inl (List.all_eq_true.mp accepted.2.1 c inside)
  case isFalse => cases read

theorem isDigit_or_plus_of_parseU16 {value : UInt16} {text : List Char} {c : Char}
    (read : parseU16 text = some value) (member : c ∈ text) : c.isDigit = true ∨ c = '+' := by
  obtain ⟨_, unsigned, _⟩ := Option.map_eq_some_iff.mp read
  exact isDigit_or_plus_of_parseUnsigned unsigned member

theorem isWord_decimal (value : Nat) : IsWord (decimal value) :=
  ⟨Nat.toDigits_ne_nil, fun _ member => isWhitespace_of_isDigit (isDigit_of_mem_decimal member)⟩

/-! ## Hexadecimal numbers -/

/-- `char::to_digit(16)`. -/
def hexDigit (c : Char) : Option Nat :=
  if '0' ≤ c ∧ c ≤ '9' then some (c.toNat - '0'.toNat)
  else if 'a' ≤ c ∧ c ≤ 'f' then some (c.toNat - 'a'.toNat + 10)
  else if 'A' ≤ c ∧ c ≤ 'F' then some (c.toNat - 'A'.toNat + 10)
  else none

theorem hexDigit_lt {c : Char} {digit : Nat} (known : hexDigit c = some digit) : digit < 16 := by
  unfold hexDigit at known
  split_ifs at known with decimal lower upper
  · cases known
    change 48 ≤ c.toNat ∧ c.toNat ≤ 57 at decimal
    change c.toNat - 48 < 16
    omega
  · cases known
    change 97 ≤ c.toNat ∧ c.toNat ≤ 102 at lower
    change c.toNat - 97 + 10 < 16
    omega
  · cases known
    change 65 ≤ c.toNat ∧ c.toNat ≤ 70 at upper
    change c.toNat - 65 + 10 < 16
    omega

theorem isWhitespace_of_hexDigit {c : Char} (digit : (hexDigit c).isSome) :
    isWhitespace c = false := by
  have range : (48 ≤ c.toNat ∧ c.toNat ≤ 57) ∨ (97 ≤ c.toNat ∧ c.toNat ≤ 102) ∨
      (65 ≤ c.toNat ∧ c.toNat ≤ 70) := by
    unfold hexDigit at digit
    split_ifs at digit with decimal lower upper
    · exact .inl decimal
    · exact .inr (.inl lower)
    · exact .inr (.inr upper)
    · cases digit
  apply isWhitespace_of_visible <;> omega

/-- `u8::from_str_radix(_, 16)`: one optional plus sign, then digits. -/
def parseHexU8 (text : List Char) : Option UInt8 :=
  match dropPlus text with
  | [] => none
  | digits => do
      let values ← digits.mapM hexDigit
      let value := values.foldl (fun sum digit => 16 * sum + digit) 0
      if value < 256 then some (UInt8.ofNat value) else none

/-- The number that hexadecimal digits denote. -/
def hexValue (digits : List Char) : Nat :=
  digits.foldl (fun sum c => 16 * sum + (hexDigit c).getD 0) 0

/-- One or more hexadecimal digits that denote a byte. -/
structure IsHexByte (text : List Char) (byte : UInt8) : Prop where
  nonempty : text ≠ []
  digits : ∀ c ∈ text, (hexDigit c).isSome
  value : hexValue text = byte.toNat

theorem IsHexByte.plain {text : List Char} {byte : UInt8} (isByte : IsHexByte text byte) :
    '+' ∉ text :=
  fun member => absurd (isByte.digits '+' member) (by decide)

theorem mapM_hexDigit_eq_some_iff {text : List Char} {values : List Nat} :
    text.mapM hexDigit = some values ↔
      (∀ c ∈ text, (hexDigit c).isSome) ∧ values = text.map fun c => (hexDigit c).getD 0 := by
  induction text generalizing values with
  | nil =>
      rw [List.mapM_nil, Option.pure_def, Option.some_inj, List.map_nil, eq_comm]
      exact (and_iff_right (List.forall_mem_nil _)).symm
  | cons c text ih =>
      rw [List.mapM_cons, List.forall_mem_cons, List.map_cons]
      cases digit : hexDigit c with
      | none => exact iff_of_false nofun fun both => nomatch both.1.1
      | some value =>
          simp only [Option.bind_eq_bind, Option.bind_some, Option.bind_eq_some_iff, ih,
            Option.isSome_some, true_and, Option.getD_some, Option.pure_def, Option.some.injEq]
          constructor
          · rintro ⟨_, ⟨digits, rfl⟩, rfl⟩
            exact ⟨digits, rfl⟩
          · rintro ⟨digits, rfl⟩
            exact ⟨_, ⟨digits, rfl⟩, rfl⟩

/-- **A byte in hexadecimal** is read after one optional plus sign. -/
theorem parseHexU8_eq_some_iff {text : List Char} {byte : UInt8} :
    parseHexU8 text = some byte ↔ IsHexByte (dropPlus text) byte := by
  unfold parseHexU8
  cases digits : dropPlus text with
  | nil => exact iff_of_false nofun fun isByte => isByte.nonempty rfl
  | cons c rest =>
      simp only [Option.bind_eq_bind, Option.bind_eq_some_iff, mapM_hexDigit_eq_some_iff]
      have value : ((c :: rest).map fun c => (hexDigit c).getD 0).foldl
          (fun sum digit => 16 * sum + digit) 0 = hexValue (c :: rest) := by
        rw [List.foldl_map, hexValue]
      constructor
      · rintro ⟨_, ⟨known, rfl⟩, read⟩
        rw [value] at read
        split at read
        · rename_i small
          cases read
          exact ⟨List.cons_ne_nil c rest, known, (UInt8.toNat_ofNat_of_lt' small).symm⟩
        · cases read
      · intro isByte
        refine ⟨_, ⟨isByte.digits, rfl⟩, ?_⟩
        rw [value, isByte.value, if_pos byte.toNat_lt, UInt8.ofNat_toNat]
/-- A digit alone. -/
theorem parseHexU8_singleton {c : Char} {value : UInt8} :
    parseHexU8 [c] = some value ↔ hexDigit c = some value.toNat := by
  rw [parseHexU8_eq_some_iff]
  by_cases plus : c = '+'
  · subst plus
    have none : hexDigit '+' = none := rfl
    rw [none]
    exact iff_of_false (fun isByte => isByte.nonempty rfl) nofun
  · have whole : dropPlus [c] = [c] :=
      dropPlus_of_not_mem fun member => plus (List.mem_singleton.mp member).symm
    have read : hexValue [c] = (hexDigit c).getD 0 := by simp [hexValue]
    rw [whole]
    constructor
    · intro isByte
      obtain ⟨digit, known⟩ := Option.isSome_iff_exists.mp
        (isByte.digits c (List.mem_singleton_self c))
      rw [← isByte.value, read, known, Option.getD_some]
    · intro known
      refine ⟨List.cons_ne_nil c [], fun other member => ?_, ?_⟩
      · rw [List.mem_singleton.mp member, known, Option.isSome_some]
      · rw [read, known, Option.getD_some]

/-- A byte as two digits, `{:02x}`. -/
def lowerHex (byte : UInt8) : List Char :=
  [Nat.digitChar (byte.toNat / 16), Nat.digitChar (byte.toNat % 16)]

/-- A byte as two digits, `{:02X}`. -/
def upperHex (byte : UInt8) : List Char := (lowerHex byte).map Char.toUpper

/-- Two digits denote the byte with these halves. -/
theorem isHexByte_pair_iff {hi lo : Char} {byte : UInt8} : IsHexByte [hi, lo] byte ↔
    hexDigit hi = some (byte.toNat / 16) ∧ hexDigit lo = some (byte.toNat % 16) := by
  constructor
  · intro isByte
    obtain ⟨high, known⟩ := Option.isSome_iff_exists.mp (isByte.digits hi List.mem_cons_self)
    obtain ⟨low, known'⟩ := Option.isSome_iff_exists.mp
      (isByte.digits lo (List.mem_cons_of_mem _ List.mem_cons_self))
    have value := isByte.value
    simp only [hexValue, List.foldl_cons, List.foldl_nil, known, known', Option.getD_some] at value
    have small := hexDigit_lt known'
    rw [known, known', Option.some_inj, Option.some_inj]
    omega
  · rintro ⟨high, low⟩
    refine ⟨List.cons_ne_nil hi [lo], fun c member => ?_, ?_⟩
    · rcases List.mem_pair.mp member with rfl | rfl
      · exact Option.isSome_iff_exists.mpr ⟨_, high⟩
      · exact Option.isSome_iff_exists.mpr ⟨_, low⟩
    · simp only [hexValue, List.foldl_cons, List.foldl_nil, high, low, Option.getD_some]
      omega

/-- A digit is read in both letter cases. -/
theorem hexDigit_digitChar {digit : Nat} (small : digit < 16) :
    hexDigit (Nat.digitChar digit) = some digit ∧
      hexDigit (Nat.digitChar digit).toUpper = some digit := by
  have all : ∀ digit < 16, hexDigit (Nat.digitChar digit) = some digit ∧
      hexDigit (Nat.digitChar digit).toUpper = some digit := by decide
  exact all digit small

theorem div_sixteen_lt (byte : UInt8) : byte.toNat / 16 < 16 := by
  have bound := byte.toNat_lt
  omega

theorem isHexByte_lowerHex (byte : UInt8) : IsHexByte (lowerHex byte) byte :=
  isHexByte_pair_iff.mpr ⟨(hexDigit_digitChar (div_sixteen_lt byte)).1,
    (hexDigit_digitChar (Nat.mod_lt _ (by decide))).1⟩

theorem isHexByte_upperHex (byte : UInt8) : IsHexByte (upperHex byte) byte :=
  isHexByte_pair_iff.mpr ⟨(hexDigit_digitChar (div_sixteen_lt byte)).2,
    (hexDigit_digitChar (Nat.mod_lt _ (by decide))).2⟩

/-! ## Dotted addresses -/

/-- The four octets of an IPv4 address. -/
structure Ipv4Addr where
  a : UInt8
  b : UInt8
  c : UInt8
  d : UInt8
deriving DecidableEq, Repr

/-- One octet of `Ipv4Addr::from_str`: up to three digits, no leading zero. -/
def parseOctet (text : List Char) : Option UInt8 :=
  if text ≠ [] ∧ text.length ≤ 3 ∧ text.all Char.isDigit ∧
      (text.length = 1 ∨ text.head? ≠ some '0') ∧ Nat.ofDigitChars 10 text 0 < 256 then
    some (UInt8.ofNat (Nat.ofDigitChars 10 text 0))
  else none

/-- `Ipv4Addr::from_str`. -/
def parseIpv4 (text : List Char) : Option Ipv4Addr :=
  match text.splitOn '.' with
  | [a, b, c, d] => do return ⟨← parseOctet a, ← parseOctet b, ← parseOctet c, ← parseOctet d⟩
  | _ => none

namespace Ipv4Addr

/-- An address as it is printed. -/
def display (self : Ipv4Addr) : List Char :=
  decimal self.a.toNat ++ '.' :: (decimal self.b.toNat ++ '.' :: (decimal self.c.toNat ++
    '.' :: decimal self.d.toNat))

end Ipv4Addr

/-- A positive number is printed without a leading zero. -/
theorem head?_decimal {value : Nat} (positive : 0 < value) :
    (decimal value).head? ≠ some '0' := by
  induction value using Nat.strongRecOn with
  | ind value ih =>
      by_cases small : value < 10
      · rw [decimal, Nat.toDigits_of_lt_base small]
        intro zero
        have digit := Nat.toNat_digitChar_sub_48_of_lt_ten small
        rw [Option.some.inj zero] at digit
        exact absurd digit (Nat.ne_of_lt positive)
      · rw [decimal, Nat.toDigits_of_base_le (by decide) (Nat.not_lt.mp small),
          List.head?_append_of_ne_nil _ Nat.toDigits_ne_nil]
        exact ih _ (Nat.div_lt_self positive (by decide))
          (Nat.div_pos (Nat.not_lt.mp small) (by decide))

theorem parseOctet_decimal (octet : UInt8) : parseOctet (decimal octet.toNat) = some octet := by
  have read : Nat.ofDigitChars 10 (decimal octet.toNat) 0 = octet.toNat :=
    Nat.ofDigitChars_ten_toDigits
  have short : (decimal octet.toNat).length ≤ 3 :=
    (Nat.length_toDigits_le_iff (by decide) (by decide)).mpr
      (lt_trans octet.toNat_lt (by decide))
  have leading : (decimal octet.toNat).length = 1 ∨ (decimal octet.toNat).head? ≠ some '0' := by
    rcases Nat.eq_zero_or_pos octet.toNat with zero | positive
    · rw [zero]
      exact .inl rfl
    · exact .inr (head?_decimal positive)
  rw [parseOctet, if_pos ⟨Nat.toDigits_ne_nil, short,
    List.all_eq_true.mpr fun _ => isDigit_of_mem_decimal, leading, read.symm ▸ octet.toNat_lt⟩,
    read, UInt8.ofNat_toNat]

theorem dot_not_mem_decimal (value : Nat) : '.' ∉ decimal value :=
  fun member => absurd (isDigit_of_mem_decimal member) (by decide)

theorem parseIpv4_display (address : Ipv4Addr) : parseIpv4 address.display = some address := by
  have parts : address.display.splitOn '.' = [decimal address.a.toNat, decimal address.b.toNat,
      decimal address.c.toNat, decimal address.d.toNat] := by
    rw [Ipv4Addr.display, List.splitOn_append_cons_self_of_not_mem (dot_not_mem_decimal _),
      List.splitOn_append_cons_self_of_not_mem (dot_not_mem_decimal _),
      List.splitOn_append_cons_self_of_not_mem (dot_not_mem_decimal _),
      List.splitOn_eq_singleton (dot_not_mem_decimal _)]
  simp only [parseIpv4, parts, parseOctet_decimal]
  rfl

theorem isDigit_or_dot_of_mem_display {address : Ipv4Addr} {c : Char}
    (member : c ∈ address.display) : c.isDigit = true ∨ c = '.' := by
  simp only [Ipv4Addr.display, List.mem_append, List.mem_cons] at member
  rcases member with first | dot | second | dot | third | dot | fourth
  · exact .inl (isDigit_of_mem_decimal first)
  · exact .inr dot
  · exact .inl (isDigit_of_mem_decimal second)
  · exact .inr dot
  · exact .inl (isDigit_of_mem_decimal third)
  · exact .inr dot
  · exact .inl (isDigit_of_mem_decimal fourth)

/-- A dotted address has a dot. -/
theorem dot_mem_of_parseIpv4 {text : List Char} {address : Ipv4Addr}
    (read : parseIpv4 text = some address) : '.' ∈ text := by
  by_contra noDot
  rw [parseIpv4, List.splitOn_eq_singleton noDot] at read
  cases read

theorem isWord_display (address : Ipv4Addr) : IsWord address.display := by
  refine ⟨List.append_ne_nil_of_left_ne_nil Nat.toDigits_ne_nil _, fun c member => ?_⟩
  rcases isDigit_or_dot_of_mem_display member with digit | rfl
  · exact isWhitespace_of_isDigit digit
  · decide

theorem isDigit_of_parseOctet {text : List Char} {octet : UInt8} {c : Char}
    (read : parseOctet text = some octet) (member : c ∈ text) : c.isDigit = true := by
  rw [parseOctet] at read
  split at read
  case isTrue accepted => exact List.all_eq_true.mp accepted.2.2.1 c member
  case isFalse => cases read

theorem isDigit_or_dot_of_parseIpv4 {text : List Char} {address : Ipv4Addr} {c : Char}
    (read : parseIpv4 text = some address) (member : c ∈ text) : c.isDigit = true ∨ c = '.' := by
  rcases eq_or_mem_splitOn '.' member with dot | ⟨part, of, inside⟩
  · exact .inr dot
  · refine .inl ?_
    rw [parseIpv4] at read
    split at read
    case h_1 first second third fourth split =>
      simp only [Option.bind_eq_bind, Option.bind_eq_some_iff, Option.pure_def,
        Option.some.injEq] at read
      obtain ⟨_, readFirst, _, readSecond, _, readThird, _, readFourth, _⟩ := read
      rw [split] at of
      simp only [List.mem_cons, List.not_mem_nil, or_false] at of
      rcases of with rfl | rfl | rfl | rfl
      · exact isDigit_of_parseOctet readFirst inside
      · exact isDigit_of_parseOctet readSecond inside
      · exact isDigit_of_parseOctet readThird inside
      · exact isDigit_of_parseOctet readFourth inside
    case h_2 => cases read

end Text
