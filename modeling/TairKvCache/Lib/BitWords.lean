import TairKvCache.Lib.Runs

/-!
# Bit sets in 64-bit words

A set of small numbers kept as a vector of 64-bit words, number `i` being bit
`i % 64` of word `i / 64`: setting one number, comparing a set with a required
one word by word, and finding the largest member below a bound by scanning the
words downwards.
-/

namespace TairKvCache.Lib

abbrev Words := List (BitVec 64)

def wordCountForBits (n : Nat) : Nat := if n = 0 then 0 else 1 + (n - 1) / 64

theorem lt_wordCountForBits {n i : Nat} (h : i < n) : i / 64 < wordCountForBits n := by
  have hn : n ≠ 0 := by omega
  simp only [wordCountForBits, if_neg hn]
  have := Nat.div_le_div_right (c := 64) (show i ≤ n - 1 by omega)
  omega

namespace Words

def zeros (count : Nat) : Words := List.replicate count 0#64

def getBit (ws : Words) (i : Nat) : Bool := (ws.getD (i / 64) 0#64).getLsbD (i % 64)

def setBit (ws : Words) (i : Nat) : Words := ws.modify (i / 64) (· ||| 1#64 <<< (i % 64))

@[simp] theorem length_setBit (ws : Words) (i : Nat) : (ws.setBit i).length = ws.length := by
  simp [setBit]

@[simp] theorem length_zeros (count : Nat) : (zeros count).length = count := by simp [zeros]

@[simp] theorem getBit_zeros (count i : Nat) : (zeros count).getBit i = false := by
  have hz : (zeros count).getD (i / 64) 0#64 = 0#64 := by
    by_cases h : i / 64 < count <;> simp [zeros, List.getD_eq_getElem?_getD, h]
  rw [getBit, hz]
  simp

theorem getLsbD_one_shift (k j : Nat) (hj : j < 64) : (1#64 <<< k).getLsbD j = decide (k = j) := by
  rw [BitVec.getLsbD_shiftLeft, BitVec.getLsbD_one]
  by_cases h : k = j
  · subst h
    simp [hj]
  · by_cases hlt : j < k
    · simp [hlt, h]
    · have : ¬j - k = 0 := by omega
      simp [h, this]

theorem getBit_setBit {ws : Words} {i : Nat} (hi : i / 64 < ws.length) (j : Nat) :
    (ws.setBit i).getBit j = (ws.getBit j || decide (i = j)) := by
  have hj : j % 64 < 64 := Nat.mod_lt j (by decide)
  simp only [getBit, setBit, List.getD_eq_getElem?_getD, List.getElem?_modify]
  by_cases hw : i / 64 = j / 64
  · rw [hw] at hi
    have hd : decide (i % 64 = j % 64) = decide (i = j) :=
      decide_eq_decide.mpr ⟨fun h => by omega, fun h => by rw [h]⟩
    simp only [hw, if_true, List.getElem?_eq_getElem hi, Option.map_eq_map, Option.map_some,
      Option.getD_some, BitVec.getLsbD_or, getLsbD_one_shift _ _ hj, hd]
  · have hne : i ≠ j := fun h => hw (by rw [h])
    simp [hw, hne]

/-! ## Required sets -/

/-- `(seen & required) == required`, word by word. -/
def covers (seen required : Words) : Bool :=
  (seen.zip required).all fun w => w.1 &&& w.2 == w.2

theorem and_eq_right_iff (a b : BitVec 64) :
    a &&& b = b ↔ ∀ j < 64, b.getLsbD j = true → a.getLsbD j = true := by
  constructor
  · intro h j _ hb
    have := congrArg (fun v => BitVec.getLsbD v j) h
    simpa [BitVec.getLsbD_and, hb] using this
  · intro h
    apply BitVec.eq_of_getLsbD_eq
    intro j hj
    rw [BitVec.getLsbD_and]
    cases hb : b.getLsbD j with
    | false => simp
    | true => simp [h j hj hb]

theorem covers_iff {seen required : Words} (hlen : seen.length = required.length) :
    covers seen required = true ↔
      ∀ i, required.getBit i = true → seen.getBit i = true := by
  have hzip : ∀ k, k < required.length →
      (seen.zip required)[k]? = some (seen.getD k 0#64, required.getD k 0#64) := by
    intro k hk
    have hk' : k < seen.length := hlen ▸ hk
    simp [List.getD_eq_getElem?_getD, hk, hk']
  simp only [covers, List.all_eq_true, beq_iff_eq]
  constructor
  · intro h i hi
    by_cases hk : i / 64 < required.length
    · exact (and_eq_right_iff _ _).mp (h _ (List.mem_of_getElem? (hzip _ hk))) _
        (Nat.mod_lt i (by decide)) hi
    · simp [getBit, List.getD_eq_getElem?_getD, List.getElem?_eq_none (not_lt.mp hk)] at hi
  · intro h w hw
    obtain ⟨k, hk⟩ := List.mem_iff_getElem?.mp hw
    have hkl : k < required.length := by
      have := (List.getElem?_eq_some_iff.mp hk).1
      simp at this
      exact this.2
    obtain rfl := Option.some.inj ((hzip k hkl).symm.trans hk)
    refine (and_eq_right_iff _ _).mpr fun j hj hb => ?_
    have hdiv : (64 * k + j) / 64 = k := by omega
    have hmod : (64 * k + j) % 64 = j := by omega
    have := h (64 * k + j)
    simp only [getBit, hdiv, hmod] at this
    exact this hb

/-! ## The largest member below a bound -/

def lowMask (used : Nat) : BitVec 64 :=
  if used = 64 then BitVec.allOnes 64 else 1#64 <<< used - 1#64

/-- `63 - clz`, the position of the highest set bit of a word that is not 0. -/
def highestBit (w : BitVec 64) : Nat := w.toNat.log2

/-- The scan from bit `used - 1` of word `word` downwards. -/
def scanFrom (ws : Words) : Nat → Nat → Nat
  | 0, used =>
    let present := ws.getD 0 0#64 &&& lowMask used
    if present ≠ 0#64 then highestBit present + 1 else 0
  | word + 1, used =>
    let present := ws.getD (word + 1) 0#64 &&& lowMask used
    if present ≠ 0#64 then (word + 1) * 64 + highestBit present + 1 else scanFrom ws word 64

/-- One more than the largest member below `bound`, 0 if there is none. -/
def highestBelow (ws : Words) : Nat → Nat
  | 0 => 0
  | last + 1 => scanFrom ws (last / 64) (last % 64 + 1)

theorem getLsbD_lowMask {used : Nat} (hused : used ≤ 64) (j : Nat) (hj : j < 64) :
    (lowMask used).getLsbD j = decide (j < used) := by
  unfold lowMask
  split
  · next h => rw [BitVec.getLsbD_allOnes, h]
  · next h =>
    have hlt : used < 64 := by omega
    have hval : (1#64 <<< used - 1#64).toNat = 2 ^ used - 1 := by
      have hpow : 2 ^ used < 2 ^ 64 := Nat.pow_lt_pow_right (by decide) hlt
      have hpos : 0 < 2 ^ used := Nat.two_pow_pos used
      rw [BitVec.toNat_sub, BitVec.toNat_shiftLeft]
      simp only [BitVec.toNat_ofNat, Nat.shiftLeft_eq, Nat.one_mod, Nat.one_mul]
      rw [Nat.mod_eq_of_lt hpow]
      omega
    rw [← BitVec.testBit_toNat, hval, Nat.testBit_two_pow_sub_one]

theorem getLsbD_highestBit {w : BitVec 64} (hw : w ≠ 0#64) :
    highestBit w < 64 ∧ w.getLsbD (highestBit w) = true ∧
      ∀ j, highestBit w < j → w.getLsbD j = false := by
  have hn : w.toNat ≠ 0 := fun h => hw (BitVec.eq_of_toNat_eq (by simpa using h))
  have hlt : highestBit w < 64 := (Nat.log2_lt hn).mpr w.isLt
  refine ⟨hlt, ?_, fun j hj => ?_⟩
  · rw [← BitVec.testBit_toNat]
    exact Nat.testBit_log2 hn
  · rw [← BitVec.testBit_toNat]
    exact Nat.testBit_lt_two_pow ((Nat.log2_lt hn).mp hj)

/-- What one word says about the members below `64 * word + used`. -/
theorem lastBelow_word {ws : Words} {word used : Nat} (hused : used ≤ 64) :
    lastBelow ws.getBit (64 * word + used) =
      if ws.getD word 0#64 &&& lowMask used ≠ 0#64 then
        word * 64 + highestBit (ws.getD word 0#64 &&& lowMask used) + 1
      else lastBelow ws.getBit (64 * word) := by
  have hbit : ∀ j < 64, (ws.getD word 0#64 &&& lowMask used).getLsbD j =
      (ws.getBit (64 * word + j) && decide (j < used)) := by
    intro j hj
    have hdiv : (64 * word + j) / 64 = word := by omega
    have hmod : (64 * word + j) % 64 = j := by omega
    rw [BitVec.getLsbD_and, getLsbD_lowMask hused j hj, getBit, hdiv, hmod]
  generalize ws.getD word 0#64 &&& lowMask used = present at hbit ⊢
  split
  · next hne =>
    obtain ⟨hlt, hset, habove⟩ := getLsbD_highestBit hne
    have htop := hbit _ hlt
    rw [hset] at htop
    obtain ⟨hmem, hin⟩ := Bool.and_eq_true_iff.mp htop.symm
    have hin' : highestBit present < used := of_decide_eq_true hin
    have hgap : ∀ i, 64 * word + highestBit present + 1 ≤ i → i < 64 * word + used →
        ws.getBit i = false := by
      intro i hi hiu
      obtain ⟨j, rfl⟩ : ∃ j, i = 64 * word + j := ⟨i - 64 * word, by omega⟩
      have hj := hbit j (by omega)
      rw [habove j (by omega), decide_eq_true (show j < used by omega), Bool.and_true] at hj
      exact hj.symm
    rw [lastBelow_eq_of_gap (by omega) hgap, lastBelow, if_pos hmem, Nat.mul_comm]
  · next hz =>
    have hz' : present = 0#64 := not_not.mp hz
    refine lastBelow_eq_of_gap (by omega) fun i hi hiu => ?_
    obtain ⟨j, rfl⟩ : ∃ j, i = 64 * word + j := ⟨i - 64 * word, by omega⟩
    have hj := hbit j (by omega)
    rw [hz', decide_eq_true (show j < used by omega), Bool.and_true] at hj
    simpa using hj.symm

theorem scanFrom_eq (ws : Words) (word : Nat) {used : Nat} (hused : used ≤ 64) :
    ws.scanFrom word used = lastBelow ws.getBit (64 * word + used) := by
  induction word generalizing used with
  | zero =>
    rw [lastBelow_word hused]
    simp [scanFrom, lastBelow]
  | succ word ih =>
    rw [lastBelow_word hused, scanFrom, ih (Nat.le_refl 64)]
    rfl

theorem highestBelow_eq (ws : Words) (bound : Nat) :
    ws.highestBelow bound = lastBelow ws.getBit bound := by
  cases bound with
  | zero => rfl
  | succ last =>
    rw [highestBelow, scanFrom_eq ws _ (by omega)]
    congr 1
    omega

end Words

end TairKvCache.Lib
