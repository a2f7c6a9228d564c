import Wnr.Pcap.Filter

/-! # What the filter compiler accepts

A primitive is a keyword with its operands. The compiler reads one primitive off
the front of the tokens and never looks at the tokens after it
(`Wnr.Pcap.FilterBuilder.parsePrimitive_eq_ok_iff`). So an expression that it
accepts has been understood as a whole exactly when nothing follows the first
primitive (`Wnr.Pcap.compile_understands_iff`), and the documented expressions
that it does not read as documented are the ones whose operands or words the
tokens break up or leave over (`Wnr.Pcap.compile_documented_iff`).
-/

namespace Wnr.Pcap

open Text

/-- The tokens of one primitive: a keyword in any letter case and its operands. -/
inductive Spells : List (List Char) → Primitive → Prop
  | keyword {kw p} (known : keywordPrimitive (toAsciiLowercase kw) = some p) : Spells [kw] p
  | port {kw operand port} (named : toAsciiLowercase kw = "port".toList)
      (read : parseU16 operand = some port) : Spells [kw, operand] (.port port)
  | portRange {kw first last a b} (named : toAsciiLowercase kw = "portrange".toList)
      (readFirst : parseU16 first = some a) (readLast : parseU16 last = some b) :
      Spells [kw, first, last] (.portRange a b)
  | host {kw operand ip} (named : toAsciiLowercase kw = "host".toList)
      (read : parseIpv4 operand = some ip) : Spells [kw, operand] (.hostIpv4 ip)

namespace FilterBuilder

variable {tokens front back : List (List Char)} {p : Primitive}

/-- A primitive at the front of the tokens is read, whatever follows it. -/
theorem parsePrimitive_of_spells (spells : Spells front p) (back : List (List Char)) :
    parsePrimitive ⟨front ++ back, 0⟩ = .ok (p, ⟨front ++ back, front.length⟩) := by
  cases spells with
  | keyword known =>
      rw [parsePrimitive, List.singleton_append]
      simp only [next, List.getElem?_cons_zero, known]
      rfl
  | port named read =>
      have other : keywordPrimitive "port".toList = none := by decide
      simp only [parsePrimitive, parsePort, next, List.cons_append, List.nil_append,
        List.getElem?_cons_zero, List.getElem?_cons_succ, named, other, if_true, read,
        List.length_cons, List.length_nil]
  | portRange named readFirst readLast =>
      have other : keywordPrimitive "portrange".toList = none := by decide
      have apart : ¬ "portrange".toList = "port".toList := by decide
      simp only [parsePrimitive, parsePortRange, next, List.cons_append, List.nil_append,
        List.getElem?_cons_zero, List.getElem?_cons_succ, named, other, apart, if_true, if_false,
        readFirst, readLast, List.length_cons, List.length_nil]
  | host named read =>
      have other : keywordPrimitive "host".toList = none := by decide
      have notPort : ¬ "host".toList = "port".toList := by decide
      have notRange : ¬ "host".toList = "portrange".toList := by decide
      simp only [parsePrimitive, parseHost, next, List.cons_append, List.nil_append,
        List.getElem?_cons_zero, List.getElem?_cons_succ, named, other, notPort, notRange, if_true,
        if_false, read, List.length_cons, List.length_nil]

/-- What is read is a primitive at the front of the tokens. -/
theorem spells_of_parsePrimitive {after : FilterBuilder}
    (parsed : parsePrimitive ⟨tokens, 0⟩ = .ok (p, after)) :
    ∃ front back, tokens = front ++ back ∧ Spells front p ∧ after = ⟨tokens, front.length⟩ := by
  cases tokens with
  | nil => cases parsed
  | cons kw tokens =>
      simp only [parsePrimitive, next, List.getElem?_cons_zero] at parsed
      split at parsed
      · rename_i known
        cases parsed
        exact ⟨[kw], tokens, rfl, .keyword known, rfl⟩
      by_cases isPort : toAsciiLowercase kw = "port".toList
      · rw [if_pos isPort] at parsed
        cases tokens with
        | nil => cases parsed
        | cons operand tokens =>
            simp only [parsePort, next, List.getElem?_cons_zero, List.getElem?_cons_succ] at parsed
            split at parsed
            · cases parsed
            · rename_i port read
              cases parsed
              exact ⟨[kw, operand], tokens, rfl, .port isPort read, rfl⟩
      rw [if_neg isPort] at parsed
      by_cases isRange : toAsciiLowercase kw = "portrange".toList
      · rw [if_pos isRange] at parsed
        rcases tokens with _ | ⟨first, _ | ⟨last, tokens⟩⟩
        · cases parsed
        · cases parsed
        · simp only [parsePortRange, next, List.getElem?_cons_zero,
            List.getElem?_cons_succ] at parsed
          split at parsed
          · cases parsed
          · rename_i a readFirst
            split at parsed
            · cases parsed
            · rename_i b readLast
              cases parsed
              exact ⟨[kw, first, last], tokens, rfl, .portRange isRange readFirst readLast, rfl⟩
      rw [if_neg isRange] at parsed
      by_cases isHost : toAsciiLowercase kw = "host".toList
      · rw [if_pos isHost] at parsed
        cases tokens with
        | nil => cases parsed
        | cons operand tokens =>
            simp only [parseHost, next, List.getElem?_cons_zero, List.getElem?_cons_succ] at parsed
            split at parsed
            · cases parsed
            · rename_i ip read
              cases parsed
              exact ⟨[kw, operand], tokens, rfl, .host isHost read, rfl⟩
      · rw [if_neg isHost] at parsed
        cases parsed

/-- Reading succeeds exactly when a primitive stands at the front of the tokens. -/
theorem parsePrimitive_eq_ok_iff {after : FilterBuilder} :
    parsePrimitive ⟨tokens, 0⟩ = .ok (p, after) ↔
      ∃ front back, tokens = front ++ back ∧ Spells front p ∧ after = ⟨tokens, front.length⟩ := by
  refine ⟨spells_of_parsePrimitive, ?_⟩
  rintro ⟨front, back, rfl, spells, rfl⟩
  exact parsePrimitive_of_spells spells back

/-- At most one front part of the tokens is a primitive. -/
theorem spells_unique {front' back' : List (List Char)} {q : Primitive} (spells : Spells front p)
    (spells' : Spells front' q) (same : front ++ back = front' ++ back') :
    p = q ∧ back = back' := by
  have read := parsePrimitive_of_spells spells back
  rw [same, parsePrimitive_of_spells spells' back'] at read
  simp only [Except.ok.injEq, Prod.mk.injEq, FilterBuilder.mk.injEq, true_and] at read
  exact ⟨read.1.symm, (List.append_inj same read.2.symm).2⟩

theorem compilePrimitive_ok (p : Primitive) (linktype : Int32) :
    ∃ insns, compilePrimitive p linktype = .ok insns := by
  cases p with
  | proto number =>
      by_cases ethertype : number = 0x0806 ∨ number = 0x0800 ∨ number = 0x86dd
      · exact ⟨_, by rw [compilePrimitive, if_pos ethertype]⟩
      · exact ⟨_, by rw [compilePrimitive, if_neg ethertype]⟩
  | _ => exact ⟨_, rfl⟩

/-- Compiling succeeds exactly when there is nothing to read or reading succeeds. -/
theorem compile_eq_ok_iff (expr : String) (linktype : Int32) :
    (∃ program, compile expr linktype = .ok program) ↔
      tokenize expr = [] ∨ ∃ front back p, tokenize expr = front ++ back ∧ Spells front p := by
  by_cases empty : tokenize expr = []
  · exact iff_of_true ⟨⟨[ret bpfAccept]⟩, if_pos empty⟩ (.inl empty)
  · simp only [compile, empty, if_false, false_or]
    cases parsed : parsePrimitive ⟨tokenize expr, 0⟩ with
    | error e =>
        refine iff_of_false (fun ⟨_, compiled⟩ => nomatch compiled) ?_
        rintro ⟨front, back, p, split, spells⟩
        rw [split, parsePrimitive_of_spells spells back] at parsed
        cases parsed
    | ok read =>
        obtain ⟨p, after⟩ := read
        obtain ⟨insns, compiled⟩ := compilePrimitive_ok p linktype
        obtain ⟨front, back, split, spells, -⟩ := spells_of_parsePrimitive parsed
        exact iff_of_true ⟨⟨insns ++ [ret bpfAccept]⟩, by simp only [compiled]⟩
          ⟨front, back, p, split, spells⟩

end FilterBuilder

/-! ## Words and tokens -/

theorem hyphen_not_mem_of_parseU16 {w : List Char} {port : UInt16} (read : parseU16 w = some port) :
    '-' ∉ w := by
  intro member
  rcases isDigit_or_plus_of_parseU16 read member with digit | plus
  · exact absurd digit (by decide)
  · exact absurd plus (by decide)

theorem hyphen_not_mem_of_parseIpv4 {w : List Char} {ip : Ipv4Addr} (read : parseIpv4 w = some ip) :
    '-' ∉ w := by
  intro member
  rcases isDigit_or_dot_of_parseIpv4 read member with digit | dot
  · exact absurd digit (by decide)
  · exact absurd dot (by decide)

theorem hyphen_not_mem_of_toAsciiLowercase {w lower : List Char}
    (lowered : toAsciiLowercase w = lower) (absent : '-' ∉ lower) : '-' ∉ w := by
  intro member
  have kept : Char.toLower '-' ∈ toAsciiLowercase w := List.mem_map_of_mem member
  rw [lowered] at kept
  exact absent kept

theorem hyphen_not_mem_of_keywordPrimitive {lower : List Char} {p : Primitive}
    (known : keywordPrimitive lower = some p) : '-' ∉ lower := by
  intro member
  unfold keywordPrimitive at known
  split_ifs at known with tcp udp icmp icmp6 arp ip ip6 broadcast multicast
  · exact absurd (tcp ▸ member) (by decide)
  · exact absurd (udp ▸ member) (by decide)
  · exact absurd (icmp ▸ member) (by decide)
  · rcases icmp6 with same | same <;> exact absurd (same ▸ member) (by decide)
  · exact absurd (arp ▸ member) (by decide)
  · exact absurd (ip ▸ member) (by decide)
  · rcases ip6 with same | same <;> exact absurd (same ▸ member) (by decide)
  · exact absurd (broadcast ▸ member) (by decide)
  · exact absurd (multicast ▸ member) (by decide)

/-- The tokens of a primitive are words that no token breaks up. -/
theorem Spells.hyphen_not_mem {tokens : List (List Char)} {p : Primitive}
    (spells : Spells tokens p) :
    ∀ w ∈ tokens, '-' ∉ w := by
  cases spells with
  | keyword known =>
      simp only [List.forall_mem_singleton]
      exact hyphen_not_mem_of_toAsciiLowercase rfl (hyphen_not_mem_of_keywordPrimitive known)
  | port named read =>
      simp only [List.forall_mem_cons, List.not_mem_nil, false_implies, implies_true, and_true]
      exact ⟨hyphen_not_mem_of_toAsciiLowercase named (by decide), hyphen_not_mem_of_parseU16 read⟩
  | portRange named readFirst readLast =>
      simp only [List.forall_mem_cons, List.not_mem_nil, false_implies, implies_true, and_true]
      exact ⟨hyphen_not_mem_of_toAsciiLowercase named (by decide),
        hyphen_not_mem_of_parseU16 readFirst, hyphen_not_mem_of_parseU16 readLast⟩
  | host named read =>
      simp only [List.forall_mem_cons, List.not_mem_nil, false_implies, implies_true, and_true]
      exact ⟨hyphen_not_mem_of_toAsciiLowercase named (by decide), hyphen_not_mem_of_parseIpv4 read⟩

theorem tokenizeWord_of_hyphen_not_mem {w : List Char} (whole : '-' ∉ w) : tokenizeWord w = [w] := by
  rw [tokenizeWord, if_neg fun broken => whole broken.1]

theorem tokenizeWord_eq_or_hyphen_mem (w : List Char) :
    tokenizeWord w = [w] ∨ ['-'] ∈ tokenizeWord w := by
  unfold tokenizeWord
  split_ifs
  · split
    · exact .inr (List.mem_cons_of_mem _ List.mem_cons_self)
    · exact .inl rfl
  · exact .inl rfl

theorem flatMap_tokenizeWord {words : List (List Char)}
    (whole : ∀ w ∈ words, tokenizeWord w = [w]) : words.flatMap tokenizeWord = words := by
  rw [List.flatMap_congr whole, List.flatMap_singleton']

/-- Words that spell a primitive are its tokens. -/
theorem Spells.tokenize_eq {expr : String} {p : Primitive}
    (spells : Spells (splitWhitespace expr.toList) p) :
    tokenize expr = splitWhitespace expr.toList :=
  flatMap_tokenizeWord fun w member => tokenizeWord_of_hyphen_not_mem (spells.hyphen_not_mem w member)

/-- Tokens that spell a primitive are the words. -/
theorem Spells.words_eq {expr : String} {p : Primitive} (spells : Spells (tokenize expr) p) :
    splitWhitespace expr.toList = tokenize expr := by
  refine (flatMap_tokenizeWord fun w member => ?_).symm
  rcases tokenizeWord_eq_or_hyphen_mem w with whole | broken
  · exact whole
  · exact absurd List.mem_cons_self
      (spells.hyphen_not_mem ['-'] (List.mem_flatMap.mpr ⟨w, member, broken⟩))

theorem tokenizeWord_ne_nil (w : List Char) : tokenizeWord w ≠ [] := by
  rcases tokenizeWord_eq_or_hyphen_mem w with whole | broken
  · rw [whole]
    exact List.cons_ne_nil w []
  · exact List.ne_nil_of_mem broken

theorem words_eq_nil_of_tokenize {expr : String} (empty : tokenize expr = []) :
    splitWhitespace expr.toList = [] := by
  rw [tokenize, List.flatMap_eq_nil_iff] at empty
  exact List.eq_nil_iff_forall_not_mem.mpr fun w member => tokenizeWord_ne_nil w (empty w member)

/-! ## Whole expressions -/

/-- The words of one primitive, the ports of a range joined by a hyphen or apart. -/
inductive IsPrimitive : List (List Char) → Prop
  | spelled {words p} (spells : Spells words p) : IsPrimitive words
  | hyphenated {kw first last a b} (named : toAsciiLowercase kw = "portrange".toList)
      (readFirst : parseU16 first = some a) (readLast : parseU16 last = some b) :
      IsPrimitive [kw, first ++ '-' :: last]

/-- Only a port range has three words. -/
theorem IsPrimitive.portRange_of_three {kw first last : List Char}
    (whole : IsPrimitive [kw, first, last]) : toAsciiLowercase kw = "portrange".toList := by
  cases whole with
  | spelled spells =>
      cases spells with
      | portRange named => exact named

/-- Two ports joined by a hyphen are three tokens. -/
theorem tokenizeWord_hyphenated {first last : List Char} {a b : UInt16}
    (readFirst : parseU16 first = some a) (readLast : parseU16 last = some b) :
    tokenizeWord (first ++ '-' :: last) = [first, ['-'], last] := by
  have parts : (first ++ '-' :: last).splitOn '-' = [first, last] := by
    rw [List.splitOn_append_cons_self_of_not_mem (hyphen_not_mem_of_parseU16 readFirst),
      List.splitOn_eq_singleton (hyphen_not_mem_of_parseU16 readLast)]
  have hyphen : '-' ∈ first ++ '-' :: last := List.mem_append_right first List.mem_cons_self
  have ports : ([first, last].all fun p => (parseU16 p).isSome) = true := by
    simp only [List.all_cons, List.all_nil, readFirst, readLast, Option.isSome_some, Bool.and_true]
  rw [tokenizeWord, parts, if_pos ⟨hyphen, ports⟩]

/-- The hyphen between two ports is taken for the second port. -/
theorem parsePrimitive_hyphenated {kw first : List Char} {a : UInt16}
    (named : toAsciiLowercase kw = "portrange".toList) (readFirst : parseU16 first = some a)
    (rest : List (List Char)) :
    FilterBuilder.parsePrimitive ⟨kw :: first :: ['-'] :: rest, 0⟩ = .error "bad port '-'" := by
  have other : keywordPrimitive "portrange".toList = none := by decide
  have apart : ¬ "portrange".toList = "port".toList := by decide
  have hyphen : parseU16 ['-'] = none := by decide
  simp only [FilterBuilder.parsePrimitive, FilterBuilder.parsePortRange, FilterBuilder.next,
    List.getElem?_cons_zero, List.getElem?_cons_succ, named, other, apart, if_true, if_false,
    readFirst, hyphen]
  rfl

/-- Nothing follows the first primitive among the tokens. -/
def NothingFollows (tokens : List (List Char)) : Prop :=
  ∀ front back p, tokens = front ++ back → Spells front p → back = []

/-- **Understanding the whole expression.** What the compiler accepts is empty
or one primitive exactly when nothing follows the first primitive among the
tokens. -/
theorem compile_understands_iff (expr : String) (linktype : Int32) :
    ((∃ program, FilterBuilder.compile expr linktype = .ok program) →
        splitWhitespace expr.toList = [] ∨ IsPrimitive (splitWhitespace expr.toList)) ↔
      NothingFollows (tokenize expr) := by
  constructor
  · intro understood front back p split spells
    have compiled := (FilterBuilder.compile_eq_ok_iff expr linktype).mpr
      (.inr ⟨front, back, p, split, spells⟩)
    rcases understood compiled with empty | whole
    · rw [tokenize, empty, List.flatMap_nil] at split
      rw [(List.append_eq_nil_iff.mp split.symm).1] at spells
      cases spells
    · generalize words : splitWhitespace expr.toList = ws at whole
      cases whole with
      | spelled spells' =>
          rw [← words] at spells'
          rw [spells'.tokenize_eq, ← List.append_nil (splitWhitespace expr.toList)] at split
          exact (FilterBuilder.spells_unique spells' spells split).2.symm
      | hyphenated named readFirst readLast =>
          have tokens := tokenizeWord_of_hyphen_not_mem
            (hyphen_not_mem_of_toAsciiLowercase named (by decide))
          rw [tokenize, words, List.flatMap_cons, List.flatMap_singleton, tokens,
            tokenizeWord_hyphenated readFirst readLast] at split
          have read := FilterBuilder.parsePrimitive_of_spells spells back
          rw [← split] at read
          exact nomatch (parsePrimitive_hyphenated named readFirst _).symm.trans read
  · intro whole compiled
    rcases (FilterBuilder.compile_eq_ok_iff expr linktype).mp compiled with
      empty | ⟨front, back, p, split, spells⟩
    · exact .inl (words_eq_nil_of_tokenize empty)
    · rw [whole front back p split spells, List.append_nil] at split
      rw [← split] at spells
      rw [spells.words_eq]
      exact .inr (.spelled spells)

/-- The example of the crate: everything after `tcp` is ignored. -/
theorem compile_ignores_port :
    ¬ ∀ (expr : String) (linktype : Int32),
      (∃ program, FilterBuilder.compile expr linktype = .ok program) →
        splitWhitespace expr.toList = [] ∨ IsPrimitive (splitWhitespace expr.toList) := by
  intro understood
  have compiled : ∃ program, FilterBuilder.compile "tcp port 80" dltEn10mb = .ok program :=
    (FilterBuilder.compile_eq_ok_iff _ _).mpr
      (.inr ⟨["tcp".toList], ["port".toList, "80".toList], .proto 6, by decide,
        .keyword (by decide)⟩)
  have words : splitWhitespace "tcp port 80".toList =
      ["tcp".toList, "port".toList, "80".toList] := by decide
  rcases understood _ _ compiled with empty | whole
  · rw [words] at empty
    cases empty
  · rw [words] at whole
    exact absurd whole.portRange_of_three (by decide)

/-! ## The documented expressions -/

/-- The expressions that the documentation of `Primitive` lists. -/
inductive Phrase where
  | tcp
  | udp
  | icmp
  | icmp6
  | arp
  | ip
  | ip6
  | port (port : UInt16)
  | portRange (first last : UInt16)
  | host (ip : Ipv4Addr)
  | broadcast
  | ipBroadcast
  | multicast
  | ipMulticast

namespace Phrase

def keywords : Phrase → List (List Char)
  | .tcp => ["tcp".toList]
  | .udp => ["udp".toList]
  | .icmp => ["icmp".toList]
  | .icmp6 => ["icmp6".toList]
  | .arp => ["arp".toList]
  | .ip => ["ip".toList]
  | .ip6 => ["ip6".toList]
  | .port _ => ["port".toList]
  | .portRange _ _ => ["portrange".toList]
  | .host _ => ["host".toList]
  | .broadcast => ["broadcast".toList]
  | .ipBroadcast => ["ip".toList, "broadcast".toList]
  | .multicast => ["multicast".toList]
  | .ipMulticast => ["ip".toList, "multicast".toList]

def operands : Phrase → List (List Char)
  | .port number => [decimal number.toNat]
  | .portRange first last => [decimal first.toNat ++ '-' :: decimal last.toNat]
  | .host address => [address.display]
  | _ => []

/-- The primitive that the expression is documented to mean. -/
def primitive : Phrase → Primitive
  | .tcp => .proto 6
  | .udp => .proto 17
  | .icmp => .proto 1
  | .icmp6 => .proto 58
  | .arp => .proto 0x0806
  | .ip => .proto 0x0800
  | .ip6 => .proto 0x86dd
  | .port number => .port number
  | .portRange first last => .portRange first last
  | .host address => .hostIpv4 address
  | .broadcast | .ipBroadcast => .broadcast
  | .multicast | .ipMulticast => .multicast

/-- All but the port ranges and the two-word spellings of the address kinds. -/
def Plain : Phrase → Prop
  | .portRange _ _ | .ipBroadcast | .ipMulticast => False
  | _ => True

theorem isWord_of_mem_operands {phrase : Phrase} {word : List Char}
    (member : word ∈ phrase.operands) : IsWord word := by
  cases phrase with
  | port port =>
      obtain rfl := List.mem_singleton.mp member
      exact isWord_decimal _
  | portRange first last =>
      obtain rfl := List.mem_singleton.mp member
      refine ⟨List.append_ne_nil_of_left_ne_nil Nat.toDigits_ne_nil _, fun c inside => ?_⟩
      rcases List.mem_append.mp inside with before | after
      · exact (isWord_decimal first.toNat).unbroken c before
      · rcases List.mem_cons.mp after with rfl | later
        · decide
        · exact (isWord_decimal last.toNat).unbroken c later
  | host ip =>
      obtain rfl := List.mem_singleton.mp member
      exact isWord_display ip
  | _ => cases member

theorem isWord_of_mem_keywords (phrase : Phrase) : ∀ word ∈ phrase.keywords, IsWord word := by
  cases phrase with
  | _ => simp only [keywords]; decide

/-- In any letter case and spacing, the words of the expression are its keywords
and its operands. -/
theorem words_eq {phrase : Phrase} {kws : List (List Char)} {text : List Char}
    (cased : kws.map toAsciiLowercase = phrase.keywords)
    (spaced : Spaced (kws ++ phrase.operands) text) :
    splitWhitespace text = kws ++ phrase.operands := by
  refine splitWhitespace_of_spaced spaced fun word member => ?_
  rcases List.mem_append.mp member with keyword | operand
  · refine isWord_of_toAsciiLowercase (phrase.isWord_of_mem_keywords _ ?_)
    rw [← cased]
    exact List.mem_map_of_mem keyword
  · exact isWord_of_mem_operands operand

/-- The expressions that are read as documented spell their primitive. -/
theorem spells {phrase : Phrase} (plain : phrase.Plain) {kws : List (List Char)}
    (cased : kws.map toAsciiLowercase = phrase.keywords) :
    Spells (kws ++ phrase.operands) phrase.primitive := by
  cases phrase with
  | portRange first last => exact plain.elim
  | ipBroadcast => exact plain.elim
  | ipMulticast => exact plain.elim
  | port port =>
      obtain ⟨kw, rfl, named⟩ := List.map_eq_singleton_iff.mp cased
      exact .port named (parseU16_decimal port)
  | host ip =>
      obtain ⟨kw, rfl, named⟩ := List.map_eq_singleton_iff.mp cased
      exact .host named (parseIpv4_display ip)
  | _ =>
      obtain ⟨kw, rfl, named⟩ := List.map_eq_singleton_iff.mp cased
      refine .keyword ?_
      rw [named]
      decide

/-- Two keywords in a row are read as the first of them. -/
theorem not_parsed_of_two {p q : Primitive} {first second : String} {kws : List (List Char)}
    {expr : String} (cased : kws.map toAsciiLowercase = [first.toList, second.toList])
    (words : splitWhitespace expr.toList = kws)
    (known : keywordPrimitive first.toList = some p) (whole : '-' ∉ second.toList) (other : p ≠ q) :
    ¬ ∃ after, FilterBuilder.parsePrimitive ⟨tokenize expr, 0⟩ = .ok (q, after) := by
  rintro ⟨after, parsed⟩
  obtain ⟨kw, rest, rfl, namedFirst, restCased⟩ := List.map_eq_cons_iff.mp cased
  obtain ⟨kw', rfl, namedSecond⟩ := List.map_eq_singleton_iff.mp restCased
  have known' : keywordPrimitive (toAsciiLowercase kw) = some p := namedFirst ▸ known
  have tokens : tokenize expr = [kw] ++ [kw'] := by
    rw [tokenize, words]
    refine flatMap_tokenizeWord fun w member => tokenizeWord_of_hyphen_not_mem ?_
    rcases List.mem_cons.mp member with rfl | later
    · exact hyphen_not_mem_of_toAsciiLowercase rfl (hyphen_not_mem_of_keywordPrimitive known')
    · obtain rfl := List.mem_singleton.mp later
      exact hyphen_not_mem_of_toAsciiLowercase namedSecond whole
  rw [tokens, FilterBuilder.parsePrimitive_of_spells (.keyword known') [kw']] at parsed
  exact other (congrArg Prod.fst (Except.ok.inj parsed))

theorem not_parsed_of_range {a b : UInt16} {q : Primitive} {kws : List (List Char)} {expr : String}
    (cased : kws.map toAsciiLowercase = (portRange a b).keywords)
    (words : splitWhitespace expr.toList = kws ++ (portRange a b).operands) :
    ¬ ∃ after, FilterBuilder.parsePrimitive ⟨tokenize expr, 0⟩ = .ok (q, after) := by
  rintro ⟨after, parsed⟩
  obtain ⟨kw, rfl, named⟩ := List.map_eq_singleton_iff.mp cased
  have whole := tokenizeWord_of_hyphen_not_mem
    (hyphen_not_mem_of_toAsciiLowercase named (by decide))
  have broken := tokenizeWord_hyphenated (parseU16_decimal a) (parseU16_decimal b)
  have tokens : tokenize expr =
      [kw, decimal a.toNat, ['-'], decimal b.toNat] := by
    rw [tokenize, words, operands, List.singleton_append, List.flatMap_cons, whole,
      List.flatMap_singleton, broken]
    rfl
  rw [tokens, parsePrimitive_hyphenated named (parseU16_decimal a)] at parsed
  cases parsed

end Phrase

/-- **The documented language.** In any letter case and spacing, a documented
expression is read as the primitive that it is documented to mean, and compiled,
exactly when it is neither a port range nor one of the two-word spellings. -/
theorem compile_documented_iff {phrase : Phrase} {kws : List (List Char)} {expr : String}
    (cased : kws.map toAsciiLowercase = phrase.keywords)
    (spaced : Spaced (kws ++ phrase.operands) expr.toList) :
    ((∃ after, FilterBuilder.parsePrimitive ⟨tokenize expr, 0⟩ = .ok (phrase.primitive, after)) ∧
        ∀ linktype, ∃ program, FilterBuilder.compile expr linktype = .ok program) ↔
      phrase.Plain := by
  have words := Phrase.words_eq cased spaced
  constructor
  · rintro ⟨parsed, -⟩
    cases phrase with
    | portRange a b => exact absurd parsed (Phrase.not_parsed_of_range cased words)
    | ipBroadcast =>
        refine absurd parsed (Phrase.not_parsed_of_two (p := .proto 0x0800) cased ?_ ?_ ?_ ?_)
        · exact words.trans (List.append_nil kws)
        · decide
        · decide
        · exact nofun
    | ipMulticast =>
        refine absurd parsed (Phrase.not_parsed_of_two (p := .proto 0x0800) cased ?_ ?_ ?_ ?_)
        · exact words.trans (List.append_nil kws)
        · decide
        · decide
        · exact nofun
    | _ => trivial
  · intro plain
    have spells := Phrase.spells plain cased
    rw [← words] at spells
    rw [← spells.tokenize_eq] at spells
    have read := FilterBuilder.parsePrimitive_of_spells spells []
    rw [List.append_nil] at read
    exact ⟨⟨_, read⟩, fun linktype => (FilterBuilder.compile_eq_ok_iff _ linktype).mpr
      (.inr ⟨tokenize expr, [], _, (List.append_nil _).symm, spells⟩)⟩

/-- A port in capitals, with white space around it. -/
theorem compile_documented_iff_port :
    ((∃ after, FilterBuilder.parsePrimitive ⟨tokenize " PORT  80 ", 0⟩ =
          .ok ((Phrase.port 80).primitive, after)) ∧
        ∀ linktype, ∃ program, FilterBuilder.compile " PORT  80 " linktype = .ok program) ↔
      (Phrase.port 80).Plain := by
  have cased : ["PORT".toList].map toAsciiLowercase = (Phrase.port 80).keywords := by decide
  have none : Blank [] := by decide
  have one : Blank [' '] := by decide
  have two : Blank [' ', ' '] := by decide
  have spaced : Spaced (["PORT".toList] ++ (Phrase.port 80).operands) " PORT  80 ".toList :=
    .cons one two (List.cons_ne_nil _ _) (.last none one)
  exact compile_documented_iff cased spaced

/-- A range of ports: the hyphen is taken for the second port. -/
theorem compile_rejects_portRange :
    ¬ ∀ (phrase : Phrase) (kws : List (List Char)) (expr : String),
      kws.map toAsciiLowercase = phrase.keywords →
        Spaced (kws ++ phrase.operands) expr.toList →
          (∃ after, FilterBuilder.parsePrimitive ⟨tokenize expr, 0⟩ =
              .ok (phrase.primitive, after)) ∧
            ∀ linktype, ∃ program, FilterBuilder.compile expr linktype = .ok program := by
  intro documented
  have none : Blank [] := by decide
  have one : Blank [' '] := by decide
  have spaced : Spaced (["portrange".toList] ++ (Phrase.portRange 80 90).operands)
      "portrange 80-90".toList :=
    .cons none one (List.cons_ne_nil _ _) (.last none none)
  have cased : ["portrange".toList].map toAsciiLowercase = (Phrase.portRange 80 90).keywords := by
    decide
  exact Phrase.not_parsed_of_range cased (Phrase.words_eq cased spaced)
    (documented _ _ _ cased spaced).1

end Wnr.Pcap
