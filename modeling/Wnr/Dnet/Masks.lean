import Wnr.Dnet.AddrLaws

/-! # Masks and prefix lengths

A prefix length is written as a mask and read back. Writing and reading are inverse
(`Wnr.Dnet.addrBtom_addrMtob_inverse`). The reader that `Addr` has of its own stops at
the first byte that is not all ones, and agrees with the other one exactly when nothing
follows a run of ones there (`Wnr.Dnet.Addr.decodersAgree_iff`).
-/

namespace Wnr.Dnet

open BitPrefix

/-- `bits += more`; `none` is the panic of an overflow. -/
def addBits (bits more : UInt16) : Option UInt16 :=
  if bits.toNat + more.toNat < 65536 then some (bits + more) else none

theorem addBits_eq {bits more : UInt16} (fits : bits.toNat + more.toNat < 65536) :
    addBits bits more = some (bits + more) ∧ (bits + more).toNat = bits.toNat + more.toNat := by
  refine ⟨if_pos fits, ?_⟩
  rw [UInt16.toNat_add, Nat.mod_eq_of_lt fits]

/-- The loop that shifts leading one bits out of a byte and counts them. -/
def shiftOnes : Nat → UInt16 → UInt8 → UInt16 × UInt8
  | 0, run, v => (run, v)
  | fuel + 1, run, v =>
      if v &&& 0x80 ≠ 0 then shiftOnes fuel (run + 1) (v <<< 1) else (run, v)

/-- The number of leading one bits of a byte, and the byte shifted past them. A byte has
no more than eight. -/
def leadingOnes (b : UInt8) : UInt16 × UInt8 := shiftOnes 8 0 b

/-- Convert a prefix length to a contiguous network mask of `size` bytes. -/
def addrBtom (bits : UInt16) (size : Nat) : Option (Vector UInt8 size) :=
  Addr.bitsToMaskLen bits size

/-- The loop of `addrMtob`, with its two variables. -/
def addrMtobFrom : UInt16 → Bool → List UInt8 → Option (Option UInt16)
  | bits, _, [] => some (some bits)
  | bits, true, b :: rest =>
      if b = 0xff then (addBits bits 8).bind fun more => addrMtobFrom more true rest
      else
        let (run, v) := leadingOnes b
        if v ≠ 0 then some none
        else (addBits bits run).bind fun more => addrMtobFrom more false rest
  | bits, false, b :: rest => if b ≠ 0 then some none else addrMtobFrom bits false rest

/-- Convert a contiguous network mask to a prefix length; `some none` is returned for a
mask that is not contiguous, `none` is a panic. -/
def addrMtob (mask : List UInt8) : Option (Option UInt16) := addrMtobFrom 0 true mask

/-- The loop of `Addr.maskToBits`. -/
def maskToBitsFrom : UInt16 → List UInt8 → Option UInt16
  | bits, [] => some bits
  | bits, b :: rest =>
      if b = 0xff then (addBits bits 8).bind fun more => maskToBitsFrom more rest
      else
        let (count, v) := leadingOnes b
        if v ≠ 0 ∧ b ≠ 0 then some 0 else addBits bits count

/-- The leading one bits of the bytes of an address, as a netmask. -/
def Addr.maskToBits (self : Addr) : Option UInt16 := maskToBitsFrom 0 self.data.toList

/-! ## Bytes -/

/-- A byte with `k` leading one bits, of fewer than eight. -/
def partialByte (k : Nat) : UInt8 := if k > 0 then 0xff <<< UInt8.ofNat (8 - k) else 0

theorem forall_byte (p : UInt8 → Prop) (all : ∀ n < 256, p (UInt8.ofNat n)) (b : UInt8) :
    p b := by
  rw [← UInt8.ofNat_toNat (x := b)]
  exact all b.toNat b.toNat_lt

/-- The loop over the bits of a byte ends by its own condition. -/
theorem leadingOnes_ended (b : UInt8) : (leadingOnes b).2 &&& 0x80 = 0 := by
  apply forall_byte fun b => (leadingOnes b).2 &&& 0x80 = 0
  decide +kernel

theorem leadingOnes_partialByte {k : Nat} (small : k < 8) :
    leadingOnes (partialByte k) = (UInt16.ofNat k, 0) := by
  have all : ∀ k < 8, leadingOnes (partialByte k) = (UInt16.ofNat k, 0) := by decide +kernel
  exact all k small

/-- Nothing follows the leading one bits of a byte: it is the byte of their number. -/
theorem eq_partialByte {b : UInt8} (notOnes : b ≠ 0xff) (nothing : (leadingOnes b).2 = 0) :
    (leadingOnes b).1.toNat < 8 ∧ b = partialByte (leadingOnes b).1.toNat := by
  have all := forall_byte
    (fun b => b ≠ 0xff → (leadingOnes b).2 = 0 →
      (leadingOnes b).1.toNat < 8 ∧ b = partialByte (leadingOnes b).1.toNat) (by decide +kernel)
  exact all b notOnes nothing

theorem partialByte_ne_ones {k : Nat} (small : k < 8) : partialByte k ≠ 0xff := by
  have all : ∀ k < 8, partialByte k ≠ 0xff := by decide
  exact all k small

theorem partialByte_inj {j k : Nat} (jSmall : j < 8) (kSmall : k < 8)
    (same : partialByte j = partialByte k) : j = k := by
  have counted := leadingOnes_partialByte jSmall
  rw [same, leadingOnes_partialByte kSmall, Prod.mk.injEq, ← UInt16.toNat_inj,
    UInt16.toNat_ofNat', UInt16.toNat_ofNat'] at counted
  omega

/-! ## The mask of a prefix length -/

/-- The bytes of the mask with `bits` leading one bits. -/
def maskBytes : Nat → Nat → List UInt8
  | 0, _ => []
  | size + 1, bits =>
      if 8 ≤ bits then 0xff :: maskBytes size (bits - 8)
      else partialByte bits :: List.replicate size 0

@[simp] theorem length_maskBytes (size bits : Nat) : (maskBytes size bits).length = size := by
  induction size generalizing bits with
  | zero => rfl
  | succ size ih =>
      unfold maskBytes
      split
      · rw [List.length_cons, ih]
      · rw [List.length_cons, List.length_replicate]

theorem getElem_maskBytes {size bits i : Nat} (inside : i < (maskBytes size bits).length) :
    (maskBytes size bits)[i] =
      if i < bits / 8 then 0xff else if i = bits / 8 then partialByte (bits % 8) else 0 := by
  induction size generalizing bits i with
  | zero => exact absurd inside (Nat.not_lt_zero i)
  | succ size ih =>
      simp only [maskBytes]
      split
      · rename_i whole
        cases i with
        | zero => rw [List.getElem_cons_zero, if_pos (by omega)]
        | succ i =>
            have shorter : i < (maskBytes size (bits - 8)).length := by
              rw [length_maskBytes] at inside ⊢
              omega
            have less : (bits - 8) / 8 = bits / 8 - 1 := by omega
            have rest : (bits - 8) % 8 = bits % 8 := by omega
            rw [List.getElem_cons_succ, ih shorter, less, rest]
            grind
      · rename_i notWhole
        have none : bits / 8 = 0 := by omega
        have rest : bits % 8 = bits := by omega
        rw [none, rest, if_neg (Nat.not_lt_zero i)]
        cases i with
        | zero => rw [List.getElem_cons_zero, if_pos rfl]
        | succ i => rw [List.getElem_cons_succ, List.getElem_replicate, if_neg (Nat.succ_ne_zero i)]

/-- **Writing** a prefix length that fits gives the bytes of its mask. -/
theorem addrBtom_of_le {bits : UInt16} {size : Nat} (fits : bits.toNat ≤ 8 * size) :
    (addrBtom bits size).map Vector.toList = some (maskBytes size bits.toNat) := by
  have notMore : ¬ bits.toNat > size * 8 := by omega
  simp only [addrBtom, Addr.bitsToMaskLen, notMore, if_false]
  split
  · rename_i inside
    rw [Option.map_some, Option.some.injEq]
    apply List.ext_getElem
    · rw [Vector.length_toList, length_maskBytes]
    · intro i left right
      rw [Vector.getElem_toList, Vector.getElem_set, getElem_maskBytes, Vector.getElem_mapIdx,
        Vector.getElem_replicate, partialByte, if_pos inside.1]
      grind
  · rename_i outside
    rw [Option.map_some, Option.some.injEq]
    apply List.ext_getElem
    · rw [Vector.length_toList, length_maskBytes]
    · intro i left right
      rw [Vector.length_toList] at left
      rw [Vector.getElem_toList, getElem_maskBytes, Vector.getElem_mapIdx, Vector.getElem_replicate]
      unfold partialByte
      grind

theorem addrBtom_of_lt {bits : UInt16} {size : Nat} (more : 8 * size < bits.toNat) :
    addrBtom bits size = none :=
  if_pos (by omega)

theorem isSome_addrBtom_iff (bits : UInt16) (size : Nat) :
    (addrBtom bits size).isSome ↔ bits.toNat ≤ 8 * size := by
  by_cases fits : bits.toNat ≤ 8 * size
  · refine iff_of_true ?_ fits
    rw [← Option.isSome_map (f := Vector.toList), addrBtom_of_le fits]
    rfl
  · rw [addrBtom_of_lt (by omega)]
    exact iff_of_false nofun fits

/-- The first byte of a mask is either all ones or the last one that is not zero. -/
theorem maskBytes_eq_cons_iff {size bits : Nat} {b : UInt8} {rest : List UInt8} :
    maskBytes (size + 1) bits = b :: rest ↔
      8 ≤ bits ∧ b = 0xff ∧ maskBytes size (bits - 8) = rest ∨
        bits < 8 ∧ b = partialByte bits ∧ rest = List.replicate size 0 := by
  rw [maskBytes]
  split
  · rename_i whole
    rw [List.cons.injEq]
    constructor
    · intro same
      exact .inl ⟨whole, same.1.symm, same.2⟩
    · intro parts
      rcases parts with ⟨_, isOnes, same⟩ | ⟨less, _⟩
      · exact ⟨isOnes.symm, same⟩
      · omega
  · rename_i notWhole
    rw [List.cons.injEq]
    constructor
    · intro same
      exact .inr ⟨by omega, same.1.symm, same.2.symm⟩
    · intro parts
      rcases parts with ⟨whole, _⟩ | ⟨_, isPartial, same⟩
      · exact absurd whole notWhole
      · exact ⟨isPartial.symm, same.symm⟩

/-! ## Reading a mask -/

theorem addrMtobFrom_after (bits : UInt16) (mask : List UInt8) :
    addrMtobFrom bits false mask =
      some (if mask = List.replicate mask.length 0 then some bits else none) := by
  induction mask with
  | nil => rfl
  | cons b rest ih =>
      simp only [addrMtobFrom, ih, List.length_cons, List.replicate_succ, List.cons.injEq]
      split_ifs with nonzero
      all_goals grind

/-- Reading a mask after `bits` ones finds the prefix lengths of which the mask is made. -/
def ReadsMask (bits : UInt16) (mask : List UInt8) : Prop :=
  ∃ read, addrMtobFrom bits true mask = some read ∧
    ∀ total : UInt16, read = some total ↔
      ∃ more, total.toNat = bits.toNat + more ∧ more ≤ 8 * mask.length ∧
        maskBytes mask.length more = mask

theorem readsMask_nil (bits : UInt16) : ReadsMask bits [] := by
  refine ⟨some bits, rfl, fun total => ?_⟩
  rw [Option.some.injEq, ← UInt16.toNat_inj]
  constructor
  · intro same
    exact ⟨0, same.symm, Nat.le_refl 0, rfl⟩
  · intro split
    obtain ⟨more, sum, atMost, _⟩ := split
    rw [List.length_nil] at atMost
    omega

section

variable {bits : UInt16} {b : UInt8} {rest : List UInt8}

/-- A byte of ones adds eight. -/
theorem ReadsMask.ones (short : bits.toNat + 8 < 65536) (later : ReadsMask (bits + 8) rest) :
    ReadsMask bits (0xff :: rest) := by
  have eight : (8 : UInt16).toNat = 8 := rfl
  obtain ⟨added, sum⟩ := @addBits_eq bits 8 short
  obtain ⟨read, reads, found⟩ := later
  refine ⟨read, ?_, fun total => ?_⟩
  · rw [addrMtobFrom, if_pos rfl, added]
    exact reads
  · rw [found total, sum, eight, List.length_cons]
    constructor
    · intro split
      obtain ⟨more, isSum, atMost, made⟩ := split
      refine ⟨more + 8, by omega, by omega, maskBytes_eq_cons_iff.mpr (.inl ?_)⟩
      exact ⟨by omega, rfl, made⟩
    · intro split
      obtain ⟨more, isSum, atMost, made⟩ := split
      rcases maskBytes_eq_cons_iff.mp made with ⟨whole, _, restMade⟩ | ⟨less, isPartial, _⟩
      · exact ⟨more - 8, by omega, by omega, restMade⟩
      · exact absurd isPartial.symm (partialByte_ne_ones less)

/-- A mask with another byte in front is that of fewer than eight ones. -/
theorem lt_of_maskBytes_eq_cons (notOnes : b ≠ 0xff) {more : Nat}
    (made : maskBytes (rest.length + 1) more = b :: rest) :
    more < 8 ∧ b = partialByte more ∧ rest = List.replicate rest.length 0 := by
  rcases maskBytes_eq_cons_iff.mp made with ⟨_, isOnes, _⟩ | parts
  · exact absurd isOnes notOnes
  · exact parts

/-- A byte with ones in front and nothing after them ends the run. -/
theorem readsMask_of_partial (short : bits.toNat + 8 < 65536) (notOnes : b ≠ 0xff)
    (nothing : (leadingOnes b).2 = 0) : ReadsMask bits (b :: rest) := by
  obtain ⟨small, isPartial⟩ := eq_partialByte notOnes nothing
  obtain ⟨added, sum⟩ := @addBits_eq bits (leadingOnes b).1 (by omega)
  refine ⟨if rest = List.replicate rest.length 0 then some (bits + (leadingOnes b).1)
    else none, ?_, fun total => ?_⟩
  · rw [addrMtobFrom, if_neg notOnes]
    simp only [nothing, ne_eq, not_true_eq_false, if_false, added, Option.bind_some,
      addrMtobFrom_after]
  · rw [Option.ite_none_right_eq_some, Option.some.injEq, ← UInt16.toNat_inj, sum,
      List.length_cons]
    constructor
    · intro read
      refine ⟨(leadingOnes b).1.toNat, read.2.symm, by omega, ?_⟩
      exact maskBytes_eq_cons_iff.mpr (.inr ⟨small, isPartial, read.1⟩)
    · intro split
      obtain ⟨more, isSum, _, made⟩ := split
      obtain ⟨less, isMore, zeros⟩ := lt_of_maskBytes_eq_cons notOnes made
      have same : (leadingOnes b).1.toNat = more :=
        partialByte_inj small less (isPartial.symm.trans isMore)
      exact ⟨zeros, by omega⟩

/-- A byte with a one after a zero is in no mask. -/
theorem readsMask_of_stray (notOnes : b ≠ 0xff) (stray : (leadingOnes b).2 ≠ 0) :
    ReadsMask bits (b :: rest) := by
  refine ⟨none, ?_, fun total => ?_⟩
  · rw [addrMtobFrom, if_neg notOnes]
    simp only [stray, ne_eq, not_false_eq_true, if_true]
  · refine iff_of_false nofun fun split => ?_
    obtain ⟨more, _, _, made⟩ := split
    obtain ⟨less, isMore, _⟩ := lt_of_maskBytes_eq_cons notOnes made
    rw [isMore, leadingOnes_partialByte less] at stray
    exact stray rfl

end

/-- **Reading** inside the run of ones. -/
theorem readsMask {bits : UInt16} {mask : List UInt8}
    (short : bits.toNat + 8 * mask.length < 65536) : ReadsMask bits mask := by
  induction mask generalizing bits with
  | nil => exact readsMask_nil bits
  | cons b rest ih =>
      rw [List.length_cons] at short
      by_cases ones : b = 0xff
      · have eight : (8 : UInt16).toNat = 8 := rfl
        have sum := (@addBits_eq bits 8 (by omega)).2
        rw [ones]
        exact .ones (by omega) (ih (by omega))
      · by_cases nothing : (leadingOnes b).2 = 0
        · exact readsMask_of_partial (by omega) ones nothing
        · exact readsMask_of_stray ones nothing

/-- **Reading** a mask finds the prefix length that it was written from. -/
theorem addrMtob_spec {mask : List UInt8} (short : mask.length ≤ 8191) :
    ∃ read, addrMtob mask = some read ∧
      ∀ bits : UInt16, read = some bits ↔
        (addrBtom bits mask.length).map Vector.toList = some mask := by
  have zero : (0 : UInt16).toNat = 0 := rfl
  obtain ⟨read, reads, found⟩ := @readsMask 0 mask (by omega)
  refine ⟨read, reads, fun bits => ?_⟩
  rw [found bits, zero]
  constructor
  · intro split
    obtain ⟨more, sum, atMost, made⟩ := split
    have same : bits.toNat = more := by omega
    rw [addrBtom_of_le (by omega), same, made]
  · intro written
    by_cases fits : bits.toNat ≤ 8 * mask.length
    · rw [addrBtom_of_le fits, Option.some.injEq] at written
      exact ⟨bits.toNat, by omega, fits, written⟩
    · rw [addrBtom_of_lt (by omega)] at written
      cases written

/-- **Masks and prefix lengths** are inverse. A prefix length has a mask of a size exactly
when it fits, whose leading one bits are as many as it says and which is read back as it; and
a mask is read as the prefix length that it is the mask of, as none when there is none. -/
theorem addrBtom_addrMtob_inverse :
    (∀ size ≤ 8191, ∀ bits : UInt16,
      ((addrBtom bits size).isSome ↔ bits.toNat ≤ 8 * size) ∧
      ∀ mask, addrBtom bits size = some mask →
        (∀ i < 8 * size, bitAt mask i = decide (i < bits.toNat)) ∧
          addrMtob mask.toList = some (some bits)) ∧
    ∀ mask : List UInt8, mask.length ≤ 8191 →
      (∀ bits, addrMtob mask = some (some bits) ↔
        (addrBtom bits mask.length).map Vector.toList = some mask) ∧
      ((∀ bits, (addrBtom bits mask.length).map Vector.toList ≠ some mask) →
        addrMtob mask = some none) := by
  constructor
  · intro size short bits
    refine ⟨?_, fun mask made => ?_⟩
    · exact isSome_addrBtom_iff bits size
    · have fits := (isSome_addrBtom_iff bits size).mp (Option.isSome_of_mem made)
      refine ⟨?_, ?_⟩
      · obtain ⟨written, isWritten, isMask⟩ := Addr.isMask_bitsToMaskLen fits
        rw [Option.some.inj (made.symm.trans isWritten)]
        exact isMask
      · have length : mask.toList.length = size := Vector.length_toList
        obtain ⟨read, reads, found⟩ := addrMtob_spec (length.trans_le short)
        rw [reads, Option.some.injEq, found, length, made]
        rfl
  · intro mask short
    obtain ⟨read, reads, found⟩ := addrMtob_spec short
    refine ⟨fun bits => ?_, fun unwritten => ?_⟩
    · rw [reads, Option.some.injEq]
      exact found bits
    · rw [reads, Option.some.injEq, Option.eq_none_iff_forall_ne_some]
      intro bits read
      exact unwritten bits ((found bits).mp read)

/-! ## The reader of `Addr` -/

/-- The first byte that is not all ones is a run of ones, perhaps of none, and a later byte
is not zero. -/
def BitsAfterRun : List UInt8 → Prop
  | [] => False
  | b :: rest =>
      if b = 0xff then BitsAfterRun rest
      else (∃ k < 8, b = partialByte k) ∧ ∃ later ∈ rest, later ≠ 0

/-- The two readers of masks say the same of the bytes of an address. -/
structure Addr.DecodersAgree (addr : Addr) : Prop where
  contiguous : ∀ bits, addrMtob addr.data.toList = some (some bits) → addr.maskToBits = some bits
  broken : addrMtob addr.data.toList = some none → addr.maskToBits = some 0

/-- **The readers agree** where no bits follow the run of ones. -/
theorem maskToBitsFrom_eq {bits : UInt16} {mask : List UInt8}
    (short : bits.toNat + 8 * mask.length < 65536) (nothing : ¬ BitsAfterRun mask) :
    maskToBitsFrom bits mask = (addrMtobFrom bits true mask).map (·.getD 0) := by
  induction mask generalizing bits with
  | nil => rfl
  | cons b rest ih =>
      rw [List.length_cons] at short
      rw [BitsAfterRun] at nothing
      by_cases ones : b = 0xff
      · have eight : (8 : UInt16).toNat = 8 := rfl
        obtain ⟨added, sum⟩ := @addBits_eq bits 8 (by omega)
        rw [if_pos ones] at nothing
        rw [maskToBitsFrom, addrMtobFrom, if_pos ones, if_pos ones, added]
        exact ih (by omega) nothing
      · rw [if_neg ones] at nothing
        rw [maskToBitsFrom, addrMtobFrom, if_neg ones, if_neg ones]
        by_cases isRun : (leadingOnes b).2 = 0
        · obtain ⟨small, isPartial⟩ := eq_partialByte ones isRun
          obtain ⟨added, _⟩ := @addBits_eq bits (leadingOnes b).1 (by omega)
          have zeros : ∀ later ∈ rest, later = 0 := by
            intro later member
            by_contra nonzero
            exact nothing ⟨⟨_, small, isPartial⟩, later, member, nonzero⟩
          have replicated := List.eq_replicate_of_mem zeros
          simp only [isRun, ne_eq, not_true_eq_false, false_and, if_false, added,
            Option.bind_some, addrMtobFrom_after, if_pos replicated, Option.map_some,
            Option.getD_some]
        · have nonzero : b ≠ 0 := by
            intro isZero
            rw [isZero] at isRun
            exact isRun rfl
          simp only [ne_eq, isRun, not_false_eq_true, nonzero, and_self, if_true, Option.map_some,
            Option.getD_none]

/-- Bits after the run are seen by the one reader, and the other one returns the length of
the run. -/
theorem maskToBitsFrom_of_bitsAfterRun {bits : UInt16} {mask : List UInt8}
    (short : bits.toNat + 8 * mask.length < 65536) (after : BitsAfterRun mask) :
    addrMtobFrom bits true mask = some none ∧
      ∃ run, maskToBitsFrom bits mask = some run ∧ (run = 0 ↔ bits = 0 ∧ mask.head? = some 0) := by
  induction mask generalizing bits with
  | nil => exact absurd after not_false
  | cons b rest ih =>
      rw [List.length_cons] at short
      rw [BitsAfterRun] at after
      rw [List.head?_cons, Option.some.injEq, maskToBitsFrom, addrMtobFrom]
      by_cases ones : b = 0xff
      · have eight : (8 : UInt16).toNat = 8 := rfl
        obtain ⟨added, sum⟩ := @addBits_eq bits 8 (by omega)
        rw [if_pos ones] at after
        obtain ⟨reads, run, counts, isZero⟩ := @ih (bits + 8) (by omega) after
        rw [if_pos ones, if_pos ones, added]
        refine ⟨reads, run, counts, isZero.trans (iff_of_false ?_ ?_)⟩
        · intro zeros
          rw [zeros.1, eight, UInt16.toNat_zero] at sum
          omega
        · intro zeros
          rw [zeros.2] at ones
          cases ones
      · rw [if_neg ones] at after
        obtain ⟨⟨k, small, isPartial⟩, later, member, nonzero⟩ := after
        have length : (UInt16.ofNat k).toNat = k := by
          rw [UInt16.toNat_ofNat']
          omega
        obtain ⟨added, sum⟩ := @addBits_eq bits (UInt16.ofNat k) (by omega)
        have seen : addrMtobFrom (bits + UInt16.ofNat k) false rest = some none := by
          rw [addrMtobFrom_after, if_neg]
          intro zeros
          rw [zeros] at member
          exact nonzero (List.eq_of_mem_replicate member)
        rw [if_neg ones, if_neg ones, isPartial, leadingOnes_partialByte small]
        simp only [ne_eq, not_true_eq_false, false_and, if_false, added, Option.bind_some]
        refine ⟨seen, _, rfl, ?_⟩
        rw [← UInt16.toNat_inj, ← UInt16.toNat_inj, sum, length]
        have noOnes : partialByte k = 0 ↔ k = 0 := by
          constructor
          · exact fun isZero => partialByte_inj small (by decide) isZero
          · intro isZero
            rw [isZero]
            rfl
        rw [noOnes]
        exact Nat.add_eq_zero_iff

/-- **When the readers agree.** They do exactly on the addresses where no bits follow the
first run of ones, or where already the first byte is zero. -/
theorem Addr.decodersAgree_iff (self : Addr) :
    self.DecodersAgree ↔ (BitsAfterRun self.data.toList → self.data[0] = 0) := by
  have short : (0 : UInt16).toNat + 8 * self.data.toList.length < 65536 := by
    rw [Vector.length_toList]
    decide
  by_cases after : BitsAfterRun self.data.toList
  · obtain ⟨reads, run, counts, isZero⟩ := maskToBitsFrom_of_bitsAfterRun short after
    have first : self.data.toList.head? = some self.data[0] := by
      rw [List.head?_eq_getElem?, List.getElem?_eq_getElem (by simp), Vector.getElem_toList]
    rw [first, Option.some.injEq, eq_self, true_and] at isZero
    constructor
    · intro agree _
      have none : self.maskToBits = some 0 := agree.broken reads
      exact isZero.mp (Option.some.inj (counts.symm.trans none))
    · intro starts
      have none : self.maskToBits = some 0 := by
        rw [Addr.maskToBits, counts, isZero.mpr (starts after)]
      constructor
      · intro bits read
        cases reads.symm.trans read
      · intro _
        exact none
  · refine iff_of_true ?_ fun impossible => absurd impossible after
    have same := maskToBitsFrom_eq short after
    constructor
    · intro bits reads
      rw [Addr.maskToBits, same, ← addrMtob, reads]
      rfl
    · intro reads
      rw [Addr.maskToBits, same, ← addrMtob, reads]
      rfl

/-- A mask of which the second byte is zero and the third one is not is read as eight bits. -/
theorem Addr.decoders_differ : ¬ ∀ self : Addr, self.DecodersAgree := by
  intro always
  have broken : addrMtob [0xff, 0, 0xff, 0, 0, 0, 0, 0, 0, 0, 0, 0, 0, 0, 0, 0] = some none := by
    decide
  have agree := (always ⟨addrTypeIp, 32,
    #v[0xff, 0, 0xff, 0, 0, 0, 0, 0, 0, 0, 0, 0, 0, 0, 0, 0]⟩).broken broken
  exact absurd agree (by decide)

end Wnr.Dnet
