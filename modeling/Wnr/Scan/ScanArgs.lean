import Wnr.Foundation.CommandLine
import Wnr.Scan.Ports

/-! # The arguments of a scan

A scan reads its arguments from left to right. Whatever they are, they are options with
their values, hosts and unknown options in some order, and the order of different kinds
does not matter (`Wnr.Scan.parseArgs_exact`).
-/

namespace Wnr.Scan

open Text CommandLine

/-- `i32::from_str`. -/
def parseI32 (text : List Char) : Option Int :=
  match text with
  | '-' :: digits =>
      if digits.head? = some '+' then none
      else (parseUnsigned 2147483649 digits).map fun value => -(value : Int)
  | _ => (parseUnsigned 2147483648 text).map Int.ofNat

/-- What the arguments of a scan say. -/
structure ScanArgs where
  host : Option (List Char)
  ports : List UInt16
  timeoutMs : Int
deriving DecidableEq

/-- Before any argument is read. -/
def ScanArgs.initial : ScanArgs := ⟨none, [], 3000⟩

/-- Read the arguments from left to right. -/
def parseArgs : List (List Char) → ScanArgs → ScanArgs
  | [], self => self
  | arg :: rest, self =>
      if arg = "-p".toList then
        match rest with
        | spec :: rest => parseArgs rest { self with ports := self.ports ++ parsePorts spec }
        | [] => self
      else if arg = "--timeout".toList then
        match rest with
        | value :: rest => parseArgs rest { self with timeoutMs := (parseI32 value).getD 3000 }
        | [] => self
      else if arg = "--filter".toList then
        -- accepted but unused for scan
        match rest with
        | _ :: rest => parseArgs rest self
        | [] => self
      else if arg.head? = some '-' then parseArgs rest self
      else parseArgs rest { self with host := some arg }

/-- The ports of a scan; the first hundred where none are given. -/
def ScanArgs.scanned (self : ScanArgs) : List UInt16 :=
  if self.ports = [] then portRange 1 100 else self.ports

/-! ## What the arguments mean -/

namespace ScanArgs

/-- The options that take the next argument. -/
def takes (arg : List Char) : Bool :=
  arg = "-p".toList ∨ arg = "--timeout".toList ∨ arg = "--filter".toList

/-- The operand of an option. -/
def operand? (name : List Char) : Item (List Char) → Option (List Char)
  | .valued name' operand => if name' = name then some operand else none
  | .alone _ => none

/-- An argument that names a host: one that stands alone and does not begin with a dash. -/
def host? : Item (List Char) → Option (List Char)
  | .valued _ _ => none
  | .alone arg => if arg.head? = some '-' then none else some arg

/-- What a part of the arguments changes. -/
def apply (self : ScanArgs) : Item (List Char) → ScanArgs
  | .valued name operand =>
      if name = "-p".toList then { self with ports := self.ports ++ parsePorts operand }
      else if name = "--timeout".toList then
        { self with timeoutMs := (parseI32 operand).getD 3000 }
      else self
  | .alone arg => if arg.head? = some '-' then self else { self with host := some arg }

/-- What all parts come to: the last host and the last timeout count, and the ports add up. -/
def of (parts : List (Item (List Char))) : ScanArgs where
  host := (parts.filterMap host?).getLast?
  ports := (parts.filterMap (operand? "-p".toList)).flatMap parsePorts
  timeoutMs := (((parts.filterMap (operand? "--timeout".toList)).getLast?).bind parseI32).getD 3000

end ScanArgs

section Reading

variable (rest : List (List Char)) (self : ScanArgs)

theorem parseArgs_valued {name : List Char} (takesOne : ScanArgs.takes name = true)
    (operand : List Char) :
    parseArgs (name :: operand :: rest) self =
      parseArgs rest (self.apply (.valued name operand)) := by
  rw [ScanArgs.takes, decide_eq_true_iff] at takesOne
  rcases takesOne with rfl | rfl | rfl
  · rfl
  · rfl
  · rfl

theorem parseArgs_alone {arg : List Char} (takesNone : ¬ ScanArgs.takes arg = true) :
    parseArgs (arg :: rest) self = parseArgs rest (self.apply (.alone arg)) := by
  rw [ScanArgs.takes, decide_eq_true_iff, not_or, not_or] at takesNone
  obtain ⟨notPorts, notTimeout, notFilter⟩ := takesNone
  rw [parseArgs.eq_def, ScanArgs.apply]
  simp only [notPorts, notTimeout, notFilter, if_false]
  split <;> rfl

/-- The last argument stands alone. -/
theorem parseArgs_last (arg : List Char) : parseArgs [arg] self = self.apply (.alone arg) := by
  by_cases takesOne : ScanArgs.takes arg = true
  · rw [ScanArgs.takes, decide_eq_true_iff] at takesOne
    rcases takesOne with rfl | rfl | rfl
    · rfl
    · rfl
    · rfl
  · exact parseArgs_alone [] self takesOne

end Reading

/-- The arguments are read part by part. -/
theorem parseArgs_eq_foldl (args : List (List Char)) (self : ScanArgs) :
    parseArgs args self = (items ScanArgs.takes args).foldl ScanArgs.apply self := by
  fun_induction items ScanArgs.takes args generalizing self with
  | case1 => rfl
  | case2 last => exact parseArgs_last self last
  | case3 first second rest takesOne ih =>
      exact (parseArgs_valued rest self takesOne second).trans (ih _)
  | case4 first second rest takesNone ih => exact (parseArgs_alone _ self takesNone).trans (ih _)

theorem ScanArgs.of_concat (parts : List (Item (List Char))) (part : Item (List Char)) :
    ScanArgs.of (parts ++ [part]) = (ScanArgs.of parts).apply part := by
  have apart : "--timeout".toList ≠ "-p".toList := by decide
  unfold ScanArgs.of ScanArgs.apply
  -- that the two names differ is all that matters about them
  generalize "--timeout".toList = timeout at apart ⊢
  generalize "-p".toList = ports at apart ⊢
  simp only [List.filterMap_append, List.filterMap_cons, List.filterMap_nil]
  cases part with
  | valued name operand =>
      by_cases isPorts : name = ports
      · simp [operand?, host?, isPorts, apart.symm]
      · by_cases isTimeout : name = timeout
        · simp [operand?, host?, isTimeout, apart]
        · simp [operand?, host?, isPorts, isTimeout]
  | alone arg =>
      by_cases dash : arg.head? = some '-'
      · simp [operand?, host?, dash]
      · simp [operand?, host?, dash]

/-- **The arguments of a scan.** Every list of arguments is read in one way, as options with
their operands and words that stand alone; and whatever the order of parts of different
kinds is, the last host and the last timeout count and the ports of all specifications
add up. -/
theorem parseArgs_exact (args : List (List Char)) :
    ∃ parts, (∀ other, other.flatMap Item.written = args ∧ Regular ScanArgs.takes other ↔
        other = parts) ∧ parseArgs args .initial = .of parts := by
  refine ⟨items ScanArgs.takes args, fun other => ?_, ?_⟩
  · rw [← items_eq_iff, eq_comm]
  · have folded (parts : List (Item (List Char))) :
        parts.foldl ScanArgs.apply .initial = .of parts := by
      induction parts using List.reverseRecOn with
      | nil => rfl
      | append_singleton parts part ih => rw [List.foldl_concat, ih, ScanArgs.of_concat]
    rw [parseArgs_eq_foldl, folded]

end Wnr.Scan
