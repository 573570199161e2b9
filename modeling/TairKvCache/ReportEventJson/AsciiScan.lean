import TairKvCache.Lib.Json

/-!
# Scanning a body for ASCII

`ScanAscii` finds out whether all bytes of a request body are ASCII and
whether one of them is NUL. It takes whole vectors first, then words of eight
bytes, and the rest byte by byte. In a word it looks for a NUL by subtracting
one from every byte at once. `scanAscii_isAscii` and `scanAscii_hasNul` say
that the result is the one a byte by byte scan would have given, for every
vector width.
-/

namespace TairKvCache.ReportEventJson

open Lib List

structure AsciiScanResult where
  isAscii : Bool
  hasNul : Bool
deriving DecidableEq, Repr

def wordOf : Bytes → Nat
  | [] => 0
  | b :: rest => b.toNat + 256 * wordOf rest

/-- `std::memcpy(&word, input.data(), sizeof(word))`. -/
def loadWord (bytes : Bytes) : BitVec 64 := BitVec.ofNat 64 (wordOf bytes)

def kHighBits : BitVec 64 := 0x8080808080808080#64

def kLowBits : BitVec 64 := 0x0101010101010101#64

/-- The loop over the bytes that do not fill a word. -/
def scanBytes (hasNul : Bool) : Bytes → AsciiScanResult
  | [] => ⟨true, hasNul⟩
  | byte :: rest =>
    if byte &&& 0x80 ≠ 0 then ⟨false, hasNul⟩
    else scanBytes (hasNul || byte == 0) rest

def finishAsciiScan (hasNul : Bool) : Bytes → AsciiScanResult
  | b0 :: b1 :: b2 :: b3 :: b4 :: b5 :: b6 :: b7 :: rest =>
    let word := loadWord [b0, b1, b2, b3, b4, b5, b6, b7]
    if word &&& kHighBits ≠ 0 then ⟨false, hasNul⟩
    else
      finishAsciiScan (hasNul || ((word - kLowBits) &&& ~~~word &&& kHighBits) != 0) rest
  | input => scanBytes hasNul input

/-- The vector loops, with `width` bytes a vector; `fuel` bounds the vectors. -/
def scanVectors (width : Nat) : Nat → Bool → Bytes → AsciiScanResult
  | 0, hasNul, input => finishAsciiScan hasNul input
  | fuel + 1, hasNul, input =>
    if width ≤ input.length then
      if (input.take width).any (128 ≤ ·) then ⟨false, hasNul⟩
      else
        scanVectors width fuel (hasNul || (input.take width).any (· == 0)) (input.drop width)
    else finishAsciiScan hasNul input

/-- The vector instructions of the processor. -/
inductive VectorUnit
  | neon
  | avx2
  | sse2
  | none
deriving DecidableEq, Repr

def scanAscii (unit : VectorUnit) (input : Bytes) : AsciiScanResult :=
  match unit with
  | .neon | .sse2 => scanVectors 16 input.length false input
  | .avx2 => scanVectors 32 input.length false input
  | .none => finishAsciiScan false input

/-! ## Words -/

theorem testBit_wordOf_cons (b : UInt8) (rest : Bytes) (j : Nat) : (wordOf (b :: rest)).testBit j =
      if j < 8 then b.toNat.testBit j else (wordOf rest).testBit (j - 8) := by
  have hb : b.toNat < 2 ^ 8 := b.toNat_lt
  rw [wordOf, Nat.add_comm, show 256 = 2 ^ 8 from rfl, Nat.testBit_two_pow_mul_add _ hb]

theorem testBit_seven (b : UInt8) : b.toNat.testBit 7 = decide (128 ≤ b) := by
  revert b
  decide +kernel

theorem exists_testBit_wordOf (bytes : Bytes) :
    (∃ i < bytes.length, (wordOf bytes).testBit (8 * i + 7) = true) ↔
      ∃ b ∈ bytes, 128 ≤ b := by
  induction bytes with
  | nil => simp
  | cons b rest ih =>
    simp only [length_cons, Nat.exists_lt_succ_left, exists_mem_cons_iff, ← ih,
      testBit_wordOf_cons]
    refine or_congr ?_ (exists_congr fun i => and_congr_right fun _ => ?_)
    · simp [testBit_seven]
    · rw [if_neg (by omega), show 8 * (i + 1) + 7 - 8 = 8 * i + 7 by omega]

def onesOf : Nat → Nat
  | 0 => 0
  | n + 1 => 1 + 256 * onesOf n

theorem onesOf_lt (n : Nat) : onesOf n < 256 ^ n := by
  induction n with
  | zero => decide
  | succ n ih =>
    rw [onesOf, pow_succ]
    omega

/-- The words less one in every byte: below the first NUL no byte borrows, and
the NUL itself becomes 255. -/
theorem exists_testBit_less_ones (bytes : Bytes) (h : ∀ b ∈ bytes, ¬128 ≤ b) :
    (∃ i < bytes.length, ((wordOf bytes + 256 ^ bytes.length - onesOf bytes.length) %
      256 ^ bytes.length).testBit (8 * i + 7) = true) ↔ 0 ∈ bytes := by
  induction bytes with
  | nil => simp
  | cons b rest ih =>
    have ih := ih fun b hb => h b (mem_cons_of_mem _ hb)
    have hlt := onesOf_lt rest.length
    have hb : b.toNat < 128 := by
      have := h b mem_cons_self
      rwa [UInt8.le_iff_toNat_le, not_le] at this
    rw [length_cons, mem_cons, wordOf, onesOf]
    by_cases h0 : b = 0
    · -- the low byte is 255, whatever the others are
      refine iff_of_true ⟨0, by omega, ?_⟩ (Or.inl h0.symm)
      have hz : b.toNat = 0 := by rw [h0]; rfl
      have hmod : (b.toNat + 256 * wordOf rest + 256 ^ (rest.length + 1) -
          (1 + 256 * onesOf rest.length)) % 256 = 255 := by
        rw [pow_succ]
        omega
      rw [show (256 : Nat) ^ (rest.length + 1) = 2 ^ (8 * (rest.length + 1)) by
        rw [pow_mul]; rfl] at hmod ⊢
      rw [Nat.testBit_mod_two_pow, decide_eq_true (by omega), Bool.true_and]
      have := Nat.testBit_mod_two_pow (b.toNat + 256 * wordOf rest +
        2 ^ (8 * (rest.length + 1)) - (1 + 256 * onesOf rest.length)) 8 7
      rw [show (2 : Nat) ^ 8 = 256 from rfl, hmod] at this
      exact this.symm
    · -- no borrow: the low byte stays below 128 and the others are those of the rest
      have hpos : 0 < b.toNat := by
        rcases Nat.eq_zero_or_pos b.toNat with hz | hz
        · exact absurd (UInt8.toNat_inj.mp hz) h0
        · exact hz
      have hsplit : (b.toNat + 256 * wordOf rest + 256 ^ (rest.length + 1) -
          (1 + 256 * onesOf rest.length)) % 256 ^ (rest.length + 1) =
          2 ^ 8 * ((wordOf rest + 256 ^ rest.length - onesOf rest.length) % 256 ^ rest.length) +
            (b.toNat - 1) := by
        rw [show b.toNat + 256 * wordOf rest + 256 ^ (rest.length + 1) -
          (1 + 256 * onesOf rest.length) =
            256 * (wordOf rest + 256 ^ rest.length - onesOf rest.length) + (b.toNat - 1) by
          rw [pow_succ]; omega, pow_succ, Nat.mul_comm _ 256, Nat.mod_mul,
          Nat.mul_add_div (by decide), Nat.mul_add_mod, Nat.div_eq_of_lt (by omega),
          Nat.mod_eq_of_lt (by omega), Nat.add_zero, Nat.add_comm]
        rfl
      simp only [hsplit, Nat.exists_lt_succ_left, Nat.testBit_two_pow_mul_add _
        (show b.toNat - 1 < 2 ^ 8 by omega)]
      rw [← ih]
      have hlow : (b.toNat - 1).testBit 7 = false :=
        Nat.testBit_lt_two_pow (by omega)
      simp only [Nat.mul_zero, Nat.zero_add, Nat.reduceLT, ↓reduceIte, hlow, Bool.false_eq_true,
        false_or, Ne.symm h0]
      refine exists_congr fun i => and_congr_right fun _ => ?_
      rw [if_neg (by omega), show 8 * (i + 1) + 7 - 8 = 8 * i + 7 by omega]

theorem and_kHighBits_ne_zero (x : BitVec 64) :
    x &&& kHighBits ≠ 0 ↔ ∃ i < 8, x.getLsbD (8 * i + 7) = true := by
  have hbits : ∀ j < 64, kHighBits.getLsbD j = decide (j % 8 = 7) := by decide
  constructor
  · intro hne
    by_contra hno
    push Not at hno
    apply hne
    apply BitVec.eq_of_getLsbD_eq
    intro j hj
    rw [BitVec.getLsbD_and, hbits j hj]
    by_cases h7 : j % 8 = 7
    · have := hno (j / 8) (by omega)
      rw [show 8 * (j / 8) + 7 = j by omega] at this
      rw [Bool.eq_false_of_not_eq_true this]
      simp
    · simp [h7]
  · rintro ⟨i, hi, hx⟩ h0
    have := congrArg (BitVec.getLsbD · (8 * i + 7)) h0
    rw [BitVec.getLsbD_and, hbits _ (by omega), hx] at this
    simp [show (8 * i + 7) % 8 = 7 by omega] at this

section

variable (bytes : Bytes) (hlen : bytes.length = 8)

include hlen

theorem loadWord_high : loadWord bytes &&& kHighBits ≠ 0 ↔ ∃ b ∈ bytes, 128 ≤ b := by
  rw [and_kHighBits_ne_zero, ← exists_testBit_wordOf, hlen]
  refine exists_congr fun i => and_congr_right fun hi => ?_
  rw [loadWord, BitVec.getLsbD_ofNat, decide_eq_true (by omega), Bool.true_and]

theorem loadWord_nul (h : ∀ b ∈ bytes, ¬128 ≤ b) :
    (loadWord bytes - kLowBits) &&& ~~~loadWord bytes &&& kHighBits ≠ 0 ↔ 0 ∈ bytes := by
  rw [and_kHighBits_ne_zero, ← exists_testBit_less_ones bytes h, hlen]
  refine exists_congr fun i => and_congr_right fun hi => ?_
  have hlow : (loadWord bytes).getLsbD (8 * i + 7) = false := by
    by_contra hne
    obtain ⟨b, hb, hge⟩ := (loadWord_high bytes hlen).mp
      ((and_kHighBits_ne_zero _).mpr ⟨i, hi, Bool.eq_true_of_not_eq_false hne⟩)
    exact h b hb hge
  rw [BitVec.getLsbD_and, BitVec.getLsbD_not, hlow, decide_eq_true (by omega), Bool.not_false,
    Bool.and_true, Bool.and_true, BitVec.getLsbD, BitVec.toNat_sub, loadWord, BitVec.toNat_ofNat]
  rw [show kLowBits.toNat = onesOf 8 by decide, show (256 : Nat) ^ 8 = 2 ^ 64 from rfl,
    show 2 ^ 64 - onesOf 8 + wordOf bytes % 2 ^ 64 = wordOf bytes % 2 ^ 64 + (2 ^ 64 - onesOf 8) from
      Nat.add_comm _ _, Nat.mod_add_mod, Nat.add_sub_assoc (by decide)]

end

/-! ## The scan -/

/-- What a scan of `input` has to find out, with a NUL seen before or not. -/
structure Scanned (hasNul : Bool) (input : Bytes) (r : AsciiScanResult) : Prop where
  isAscii : r.isAscii = true ↔ ∀ b ∈ input, ¬128 ≤ b
  hasNul : r.isAscii = true → (r.hasNul = true ↔ hasNul = true ∨ 0 ∈ input)

theorem Scanned.refused {hasNul : Bool} (part : Bytes) {rest : Bytes} (h : ∃ b ∈ part, 128 ≤ b) :
    Scanned hasNul (part ++ rest) ⟨false, hasNul⟩ := by
  obtain ⟨b, hb, hge⟩ := h
  refine ⟨iff_of_false (by simp) fun hall => ?_, fun hf => absurd hf (by simp)⟩
  exact hall b (mem_append_left _ hb) hge

theorem Scanned.append {hasNul seen : Bool} (part : Bytes) {rest : Bytes} {r : AsciiScanResult}
    (h : ∀ b ∈ part, ¬128 ≤ b) (hseen : seen = true ↔ hasNul = true ∨ 0 ∈ part)
    (hr : Scanned seen rest r) : Scanned hasNul (part ++ rest) r := by
  constructor
  · rw [hr.isAscii, forall_mem_append]
    exact ⟨fun hrest => ⟨h, hrest⟩, And.right⟩
  · intro ha
    rw [hr.hasNul ha, hseen, mem_append, or_assoc]

theorem scanBytes_scanned (hasNul : Bool) (input : Bytes) :
    Scanned hasNul input (scanBytes hasNul input) := by
  induction input generalizing hasNul with
  | nil => exact ⟨by simp [scanBytes], fun _ => by simp [scanBytes]⟩
  | cons b rest ih =>
    have htop : b &&& 0x80 ≠ 0 ↔ 128 ≤ b := by
      revert b
      decide +kernel
    rw [scanBytes]
    by_cases hb : b &&& 0x80 ≠ 0
    · rw [if_pos hb]
      exact Scanned.refused [b] ⟨b, by simp, htop.mp hb⟩
    · rw [if_neg hb]
      refine Scanned.append [b] (fun c hc => ?_) ?_ (ih (hasNul || b == 0))
      · rw [mem_singleton.mp hc, ← htop]
        exact hb
      · rw [Bool.or_eq_true, beq_iff_eq, mem_singleton, @eq_comm _ b]

theorem finishAsciiScan_scanned (hasNul : Bool) (input : Bytes) :
    Scanned hasNul input (finishAsciiScan hasNul input) := by
  fun_induction finishAsciiScan hasNul input with
  | case1 hasNul b0 b1 b2 b3 b4 b5 b6 b7 rest word hhigh =>
    exact Scanned.refused [b0, b1, b2, b3, b4, b5, b6, b7]
      ((loadWord_high _ rfl).mp hhigh)
  | case2 hasNul b0 b1 b2 b3 b4 b5 b6 b7 rest word hhigh ih =>
    have hpart : ∀ b ∈ [b0, b1, b2, b3, b4, b5, b6, b7], ¬128 ≤ b := by
      intro b hb hge
      exact hhigh ((loadWord_high _ rfl).mpr ⟨b, hb, hge⟩)
    refine Scanned.append [b0, b1, b2, b3, b4, b5, b6, b7] hpart ?_ ih
    rw [Bool.or_eq_true, bne_iff_ne, loadWord_nul _ rfl hpart]
  | case3 hasNul input => exact scanBytes_scanned hasNul input

theorem scanVectors_scanned (width fuel : Nat) (hasNul : Bool) (input : Bytes) :
    Scanned hasNul input (scanVectors width fuel hasNul input) := by
  induction fuel generalizing hasNul input with
  | zero => exact finishAsciiScan_scanned hasNul input
  | succ fuel ih =>
    rw [scanVectors]
    split_ifs with hlen hany
    · rw [← take_append_drop width input]
      refine Scanned.refused (input.take width) ?_
      simpa using hany
    · have hsplit := take_append_drop width input
      nth_rewrite 1 [← hsplit]
      refine Scanned.append (input.take width) (fun b hb hge => hany ?_) ?_ (ih _ _)
      · exact any_eq_true.mpr ⟨b, hb, by simpa using hge⟩
      · simp
    · exact finishAsciiScan_scanned hasNul input

theorem scanAscii_scanned (unit : VectorUnit) (input : Bytes) :
    Scanned false input (scanAscii unit input) := by
  cases unit with
  | neon | sse2 => exact scanVectors_scanned 16 _ _ _
  | avx2 => exact scanVectors_scanned 32 _ _ _
  | none => exact finishAsciiScan_scanned _ _

end TairKvCache.ReportEventJson
