import AnalysePcap.Decode

/-! `extractDword` in general: the bytes that it reads and the number that it makes of
them, for a bit field at any place and of any length. -/

namespace AnalysePcap

def wordReads (offset : Nat) : List Nat := [offset, offset + 1]

/-- The indices at which the loop of `extractDword` reads the buffer. -/
def extractWordsReads (startBit : Nat) :
    (fuel : Nat) → (firstWord : Bool) → (wordOffset : Nat) → (lenLeft : Int) → List Nat
  | 0, _, _, _ => []
  | fuel + 1, firstWord, wordOffset, lenLeft =>
    if 16 ≤ lenLeft ∨ firstWord = true then
      wordReads wordOffset ++
        if firstWord = true then
          extractWordsReads startBit fuel false (wordOffset + 2) (lenLeft - (16 - startBit))
        else extractWordsReads startBit fuel false (wordOffset + 2) (lenLeft - 16)
    else []

def extractDwordReads (buffer : Buffer) (startWord startBit : Nat) (len : Int) : List Nat :=
  if startBit + len ≤ 16 then wordReads (startWord * 2)
  else
    let (wordOffset, _, lenLeft) :=
      extractWords buffer startBit (len.toNat + 1) true (startWord * 2) 0 len
    extractWordsReads startBit (len.toNat + 1) true (startWord * 2) len ++
      if 0 < lenLeft then wordReads wordOffset else []

def bytesAt (dMsg : Buffer) : (offset n : Nat) → List (BitVec 8)
  | _, 0 => []
  | offset, n + 1 => dMsg offset :: bytesAt dMsg (offset + 1) n

@[simp] theorem length_bytesAt (dMsg : Buffer) (offset n : Nat) :
    (bytesAt dMsg offset n).length = n := by
  induction n generalizing offset with
  | zero => rfl
  | succ n ih => simp [bytesAt, ih]

theorem bytesAt_add (dMsg : Buffer) (offset n m : Nat) :
    bytesAt dMsg offset (n + m) = bytesAt dMsg offset n ++ bytesAt dMsg (offset + n) m := by
  induction n generalizing offset with
  | zero => simp [bytesAt]
  | succ n ih =>
    have hoff : offset + (n + 1) = offset + 1 + n := by omega
    rw [Nat.succ_add, bytesAt, bytesAt, ih, hoff, List.cons_append]

theorem beNat_concat (bs : List (BitVec 8)) (b : BitVec 8) :
    beNat (bs ++ [b]) = beNat bs * 256 + b.toNat :=
  SignedBytes.bigEndian_concat bs b

theorem pow_256 (q : Nat) : 256 ^ (2 * q) = 2 ^ (16 * q) := by
  rw [show 256 = 2 ^ 8 from rfl, ← pow_mul]
  congr 1
  omega

section Bytes

variable (buffer : Buffer) (offset : Nat)

theorem beNat_append (as bs : List (BitVec 8)) :
    beNat (as ++ bs) = beNat as * 256 ^ bs.length + beNat bs := by
  induction bs using List.reverseRecOn with
  | nil => simp [beNat]
  | append_singleton bs b ih =>
    rw [← List.append_assoc, beNat_concat, beNat_concat, ih, List.length_append,
      List.length_singleton, pow_succ]
    ring

theorem beNat_word : beNat (bytesAt buffer offset 2) = word buffer offset := by
  rw [word_eq]
  simp [bytesAt, beNat]

theorem beNat_word_add (n : Nat) :
    beNat (bytesAt buffer offset (2 + n)) =
      word buffer offset * 256 ^ n + beNat (bytesAt buffer (offset + 2) n) := by
  rw [bytesAt_add, beNat_append, length_bytesAt, beNat_word]

theorem beNat_add_word (n : Nat) :
    beNat (bytesAt buffer offset (n + 2)) =
      beNat (bytesAt buffer offset n) * 2 ^ 16 + word buffer (offset + n) := by
  rw [bytesAt_add, beNat_append, length_bytesAt, beNat_word]
  norm_num

end Bytes

theorem getD_word_masks {n : Nat} (h : n ≤ 16) : word_masks.getD n 0 = 2 ^ n - 1 := by
  have hall : ∀ n < 17, word_masks.getD n 0 = 2 ^ n - 1 := by decide
  exact hall n (by omega)

theorem shift_or_mod (value buf r : Nat) (hr : r ≤ 16) (hbuf : buf < 2 ^ 16) :
    ((value % 2 ^ 32) <<< r ||| buf >>> (16 - r)) % 2 ^ 32 =
      (value * 2 ^ r + buf / 2 ^ (16 - r)) % 2 ^ 32 := by
  have hlow : buf >>> (16 - r) < 2 ^ r := by
    rw [Nat.shiftRight_eq_div_pow]
    refine Nat.div_lt_of_lt_mul ?_
    rwa [← pow_add, show 16 - r + r = 16 by omega]
  rw [← Nat.shiftLeft_add_eq_or_of_lt hlow, Nat.shiftLeft_eq, Nat.shiftRight_eq_div_pow,
    Nat.add_mod, Nat.mod_mul_mod, ← Nat.add_mod]

theorem not_more_words {r : Nat} (hr : r < 16) :
    ¬ (16 ≤ ((16 * 0 + r : Nat) : Int) ∨ false = true) := by
  simp
  omega

theorem more_words (q r : Nat) :
    (16 ≤ ((16 * (q + 1) + r : Nat) : Int) ∨ false = true) ∧
      ((16 * (q + 1) + r : Nat) : Int) - 16 = ((16 * q + r : Nat) : Int) :=
  ⟨.inl (by omega), by omega⟩

section Loop

variable (buffer : Buffer) (startBit : Nat)

-- The induction is on the number `q` of whole words that are left after the first one.
theorem extractWords_rest {q fuel : Nat} (hq : q ≤ fuel) {r : Nat} (hr : r < 16)
    (offset value : Nat) :
    extractWords buffer startBit fuel false offset (value % 2 ^ 32) ((16 * q + r : Nat) : Int) =
      (offset + 2 * q,
        (value * 2 ^ (16 * q) + beNat (bytesAt buffer offset (2 * q))) % 2 ^ 32, (r : Int)) := by
  induction q generalizing fuel offset value with
  | zero =>
    cases fuel with
    | zero => simp [extractWords, bytesAt, beNat]
    | succ fuel =>
      rw [extractWords, if_neg (not_more_words hr)]
      simp [bytesAt, beNat]
  | succ q ih =>
    obtain ⟨n, rfl⟩ : ∃ n, fuel = n + 1 := ⟨fuel - 1, by omega⟩
    obtain ⟨hmore, hleft⟩ := more_words q r
    have hvalue : ((value % 2 ^ 32) <<< 16 ||| word buffer offset) % 2 ^ 32 =
        (value * 2 ^ 16 + word buffer offset) % 2 ^ 32 := by
      simpa using shift_or_mod value (word buffer offset) 16 (by omega) (word_lt buffer offset)
    have hbytes := beNat_word_add buffer offset (2 * q)
    rw [extractWords, if_pos hmore]
    simp only [Bool.false_eq_true, if_false, hleft, hvalue]
    rw [ih (by omega), show 2 * (q + 1) = 2 + 2 * q by omega, hbytes]
    simp only [Prod.mk.injEq, and_true]
    constructor
    · omega
    · rw [pow_256, show 16 * (q + 1) = 16 + 16 * q by omega, pow_add]
      congr 1
      ring

theorem extractWordsReads_rest {q fuel : Nat} (hq : q ≤ fuel) {r : Nat} (hr : r < 16)
    (offset : Nat) :
    extractWordsReads startBit fuel false offset ((16 * q + r : Nat) : Int) =
      List.range' offset (2 * q) := by
  induction q generalizing fuel offset with
  | zero =>
    cases fuel with
    | zero => rfl
    | succ fuel =>
      rw [extractWordsReads, if_neg (not_more_words hr)]
      rfl
  | succ q ih =>
    obtain ⟨n, rfl⟩ : ∃ n, fuel = n + 1 := ⟨fuel - 1, by omega⟩
    obtain ⟨hmore, hleft⟩ := more_words q r
    rw [extractWordsReads, if_pos hmore]
    simp only [Bool.false_eq_true, if_false, hleft]
    rw [ih (by omega)]
    rfl

end Loop

theorem mul_add_mod_mul {W P Q Y : Nat} (hY : Y < P) (hQ : 0 < Q) :
    (W * P + Y) % (Q * P) = W % Q * P + Y := by
  have hsplit : W * P + Y = Q * P * (W / Q) + (W % Q * P + Y) := by
    nth_rewrite 1 [← Nat.div_add_mod W Q]
    ring
  have hlt : W % Q * P + Y < Q * P := by
    have hW : W % Q + 1 ≤ Q := Nat.mod_lt W hQ
    calc W % Q * P + Y < W % Q * P + P := by omega
      _ = (W % Q + 1) * P := by ring
      _ ≤ Q * P := Nat.mul_le_mul_right P hW
  rw [hsplit, Nat.mul_add_mod, Nat.mod_eq_of_lt hlt]

/-- The words that cover a field of at least one bit. -/
def fieldWords (startBit len : Nat) : Nat := (startBit + len + 15) / 16

theorem fieldWords_of_short {startBit len : Nat} (hlen : 1 ≤ len) (hshort : startBit + len ≤ 16) :
    fieldWords startBit len = 1 := by
  unfold fieldWords
  omega

/-- The whole words and the bits behind the first word. -/
theorem exists_words {startBit len : Nat} (hlong : 16 ≤ startBit + len) :
    ∃ q r, startBit + len = 16 + 16 * q + r ∧ r < 16 :=
  ⟨(startBit + len - 16) / 16, (startBit + len - 16) % 16, by omega, by omega⟩

section Field

variable (undef : Undefined) (buffer : Buffer) (startWord : Nat) {startBit len : Nat}

theorem extractDword_of_short (hshort : startBit + len ≤ 16) :
    extractDword undef buffer startWord startBit len =
      word buffer (startWord * 2) / 2 ^ (16 - startBit - len) % 2 ^ len := by
  have hcond : (startBit : Int) + (len : Int) ≤ 16 := by omega
  unfold extractDword
  rw [if_pos hcond]
  show (word buffer (startWord * 2) >>> (16 - startBit - len)) &&& word_masks.getD len 0 = _
  rw [getD_word_masks (by omega), Nat.and_two_pow_sub_one_eq_mod, Nat.shiftRight_eq_div_pow]

/-- What the loop leaves when `q` whole words and `r` bits follow the first word. -/
theorem extractWords_first {q r : Nat} (hbit : startBit < 16)
    (hlen : startBit + len = 16 + 16 * q + r) (hr : r < 16) :
    extractWords buffer startBit (len + 1) true (startWord * 2) 0 len =
      (startWord * 2 + 2 + 2 * q,
        (word buffer (startWord * 2) % 2 ^ (16 - startBit) * 2 ^ (16 * q) +
          beNat (bytesAt buffer (startWord * 2 + 2) (2 * q))) % 2 ^ 32, (r : Int)) := by
  have hleft : (len : Int) - (16 - startBit) = ((16 * q + r : Nat) : Int) := by omega
  have hmask : word buffer (startWord * 2) &&& word_masks.getD (16 - startBit) 0 =
      word buffer (startWord * 2) % 2 ^ (16 - startBit) := by
    rw [getD_word_masks (by omega), Nat.and_two_pow_sub_one_eq_mod]
  have hsmall : word buffer (startWord * 2) % 2 ^ (16 - startBit) < 2 ^ 32 :=
    ((Nat.mod_le _ _).trans_lt (word_lt buffer _)).trans (by norm_num)
  rw [extractWords, if_pos (.inr rfl)]
  simp only [if_true, hleft, hmask]
  rw [← Nat.mod_eq_of_lt hsmall, extractWords_rest buffer startBit (by omega) hr,
    Nat.mod_eq_of_lt hsmall]

theorem extractWordsReads_first {q r : Nat} (hbit : startBit < 16)
    (hlen : startBit + len = 16 + 16 * q + r) (hr : r < 16) :
    extractWordsReads startBit (len + 1) true (startWord * 2) len =
      List.range' (startWord * 2) (2 + 2 * q) := by
  have hleft : (len : Int) - (16 - startBit) = ((16 * q + r : Nat) : Int) := by omega
  rw [extractWordsReads, if_pos (.inr rfl)]
  simp only [if_true, hleft]
  rw [extractWordsReads_rest startBit (by omega) hr, Nat.add_comm 2 (2 * q)]
  rfl

theorem extractDwordReads_eq (hbit : startBit < 16) (hlen : 1 ≤ len) :
    extractDwordReads buffer startWord startBit len =
      List.range' (startWord * 2) (2 * fieldWords startBit len) := by
  unfold extractDwordReads
  by_cases hshort : startBit + len ≤ 16
  · have hcond : (startBit : Int) + (len : Int) ≤ 16 := by omega
    have hone := fieldWords_of_short hlen hshort
    rw [if_pos hcond, hone]
    rfl
  · have hcond : ¬ (startBit : Int) + (len : Int) ≤ 16 := by omega
    obtain ⟨q, r, hqr, hr⟩ := exists_words (not_le.mp hshort).le
    rw [if_neg hcond, Int.toNat_natCast, extractWords_first buffer startWord hbit hqr hr,
      extractWordsReads_first startWord hbit hqr hr]
    dsimp only
    by_cases hzero : r = 0
    · have hwords : 2 * fieldWords startBit len = 2 + 2 * q := by
        unfold fieldWords
        omega
      simp [hzero, hwords]
    · have hwords : 2 * fieldWords startBit len = 2 + 2 * q + 2 := by
        unfold fieldWords
        omega
      have hpos : (0 : Int) < r := by omega
      rw [if_pos hpos, hwords, Nat.add_assoc]
      exact List.range'_append_1 (s := startWord * 2) (m := 2 + 2 * q) (n := 2)

theorem extractDword_of_long {q r : Nat} (hbit : startBit < 16)
    (hlen : startBit + len = 16 + 16 * q + r) (hr : r < 16) (hlong : 16 < startBit + len) :
    extractDword undef buffer startWord startBit len =
      ((word buffer (startWord * 2) % 2 ^ (16 - startBit) * 2 ^ (16 * q) +
        beNat (bytesAt buffer (startWord * 2 + 2) (2 * q))) * 2 ^ r +
          word buffer (startWord * 2 + 2 + 2 * q) / 2 ^ (16 - r)) % 2 ^ 32 := by
  have hcond : ¬ (startBit : Int) + (len : Int) ≤ 16 := by omega
  unfold extractDword
  rw [if_neg hcond, Int.toNat_natCast, extractWords_first buffer startWord hbit hlen hr]
  dsimp only
  by_cases hzero : r = 0
  · subst hzero
    have hword : word buffer (startWord * 2 + 2 + 2 * q) / 2 ^ 16 = 0 :=
      Nat.div_eq_of_lt (word_lt buffer _)
    rw [Nat.sub_zero, hword]
    simp
  · have hpos : (0 : Int) < r := by omega
    rw [if_pos hpos, Int.toNat_natCast]
    exact shift_or_mod _ _ r (by omega) (word_lt buffer _)

/-- The same number without the mask, before the bits in front of the field are cut off. -/
theorem beNat_div_of_long {q r : Nat} (hlen : startBit + len = 16 + 16 * q + r) (hr : r < 16) :
    beNat (bytesAt buffer (startWord * 2) (2 * fieldWords startBit len)) /
        2 ^ (16 * fieldWords startBit len - startBit - len) =
      word buffer (startWord * 2) * 2 ^ (16 * q + r) +
        (beNat (bytesAt buffer (startWord * 2 + 2) (2 * q)) * 2 ^ r +
          word buffer (startWord * 2 + 2 + 2 * q) / 2 ^ (16 - r)) := by
  by_cases hzero : r = 0
  · subst hzero
    have hwords : fieldWords startBit len = q + 1 := by
      unfold fieldWords
      omega
    have hword : word buffer (startWord * 2 + 2 + 2 * q) / 2 ^ 16 = 0 :=
      Nat.div_eq_of_lt (word_lt buffer _)
    rw [hwords, show 2 * (q + 1) = 2 + 2 * q by omega, beNat_word_add, pow_256, Nat.sub_zero, hword,
      show 16 * (q + 1) - startBit - len = 0 by omega]
    simp
  · have hwords : fieldWords startBit len = q + 2 := by
      unfold fieldWords
      omega
    have hshift : 16 * (q + 2) - startBit - len = 16 - r := by omega
    have hsplit : (2 : Nat) ^ 16 = 2 ^ (16 - r) * 2 ^ r := by
      rw [← pow_add]
      congr 1
      omega
    rw [hwords, hshift, show 2 * (q + 2) = 2 + 2 * q + 2 by omega, beNat_add_word,
      beNat_word_add, pow_256, hsplit, ← Nat.add_assoc (startWord * 2) 2 (2 * q)]
    rw [show (word buffer (startWord * 2) * 2 ^ (16 * q) +
          beNat (bytesAt buffer (startWord * 2 + 2) (2 * q))) * (2 ^ (16 - r) * 2 ^ r) =
        2 ^ (16 - r) * ((word buffer (startWord * 2) * 2 ^ (16 * q) +
          beNat (bytesAt buffer (startWord * 2 + 2) (2 * q))) * 2 ^ r) by ring,
      Nat.mul_add_div (by positivity)]
    rw [pow_add]
    ring

theorem extractDword_eq (hbit : startBit < 16) (hlen : 1 ≤ len) :
    extractDword undef buffer startWord startBit len =
      beNat (bytesAt buffer (startWord * 2) (2 * fieldWords startBit len)) /
        2 ^ (16 * fieldWords startBit len - startBit - len) % 2 ^ len % 2 ^ 32 := by
  by_cases hshort : startBit + len ≤ 16
  · have hone := fieldWords_of_short hlen hshort
    have hsmall : word buffer (startWord * 2) / 2 ^ (16 - startBit - len) % 2 ^ len < 2 ^ 32 :=
      ((Nat.mod_le _ _).trans (Nat.div_le_self _ _)).trans_lt
        ((word_lt buffer _).trans (by norm_num))
    rw [extractDword_of_short undef buffer startWord hshort, hone, beNat_word,
      Nat.mod_eq_of_lt hsmall]
  · obtain ⟨q, r, hqr, hr⟩ := exists_words (not_le.mp hshort).le
    have hrest : beNat (bytesAt buffer (startWord * 2 + 2) (2 * q)) < 2 ^ (16 * q) := by
      have hlt := beNat_lt (bytesAt buffer (startWord * 2 + 2) (2 * q))
      rwa [length_bytesAt, pow_256] at hlt
    have hlast : word buffer (startWord * 2 + 2 + 2 * q) / 2 ^ (16 - r) < 2 ^ r := by
      refine Nat.div_lt_of_lt_mul ?_
      rw [← pow_add, show 16 - r + r = 16 by omega]
      exact word_lt buffer _
    have htail : beNat (bytesAt buffer (startWord * 2 + 2) (2 * q)) * 2 ^ r +
        word buffer (startWord * 2 + 2 + 2 * q) / 2 ^ (16 - r) < 2 ^ (16 * q + r) := by
      rw [pow_add]
      calc _ < beNat (bytesAt buffer (startWord * 2 + 2) (2 * q)) * 2 ^ r + 2 ^ r := by omega
        _ = (beNat (bytesAt buffer (startWord * 2 + 2) (2 * q)) + 1) * 2 ^ r := by ring
        _ ≤ 2 ^ (16 * q) * 2 ^ r := Nat.mul_le_mul_right _ hrest
    rw [extractDword_of_long undef buffer startWord hbit hqr hr (by omega),
      beNat_div_of_long buffer startWord hqr hr,
      show len = (16 - startBit) + (16 * q + r) by omega, pow_add 2 (16 - startBit),
      mul_add_mod_mul htail (by positivity), pow_add]
    congr 1
    ring

/-- Whole bytes from the first bit of a word on. -/
theorem extractDword_bytes (d : Nat) :
    extractDword undef buffer startWord 0 ((d * 8 : Nat) : Int) =
      beNat (bytesAt buffer (startWord * 2) d) % 2 ^ 32 := by
  by_cases hd : d = 0
  · subst hd
    have hzero : word buffer (startWord * 2) >>> 16 = 0 := by
      rw [Nat.shiftRight_eq_div_pow]
      exact Nat.div_eq_of_lt (word_lt buffer _)
    simp [extractDword, bytesAt, beNat, hzero]
  · have hlt := beNat_lt (bytesAt buffer (startWord * 2) d)
    rw [length_bytesAt, show 256 = 2 ^ 8 from rfl, ← pow_mul, Nat.mul_comm 8 d] at hlt
    rw [extractDword_eq undef buffer startWord (by omega) (by omega)]
    congr 1
    rcases Nat.even_or_odd' d with ⟨q, rfl | rfl⟩
    · have hwords : fieldWords 0 (2 * q * 8) = q := by
        unfold fieldWords
        omega
      rw [hwords, show 16 * q - 0 - 2 * q * 8 = 0 by omega, pow_zero, Nat.div_one,
        Nat.mod_eq_of_lt hlt]
    · have hwords : fieldWords 0 ((2 * q + 1) * 8) = q + 1 := by
        unfold fieldWords
        omega
      have hlast := (buffer (startWord * 2 + (2 * q + 1))).isLt
      have hdiv : beNat (bytesAt buffer (startWord * 2) (2 * (q + 1))) / 256 =
          beNat (bytesAt buffer (startWord * 2) (2 * q + 1)) := by
        have hconcat : bytesAt buffer (startWord * 2) (2 * (q + 1)) =
            bytesAt buffer (startWord * 2) (2 * q + 1) ++ [buffer (startWord * 2 + (2 * q + 1))] :=
          bytesAt_add buffer (startWord * 2) (2 * q + 1) 1
        rw [hconcat, beNat_concat]
        omega
      rw [hwords, show 16 * (q + 1) - 0 - (2 * q + 1) * 8 = 8 by omega,
        show (2 : Nat) ^ 8 = 256 from rfl, hdiv, Nat.mod_eq_of_lt hlt]

end Field

theorem bytesAt_congr {buffer buffer' : Buffer} {offset n : Nat}
    (h : ∀ i, offset ≤ i → i < offset + n → buffer i = buffer' i) :
    bytesAt buffer offset n = bytesAt buffer' offset n := by
  induction n generalizing offset with
  | zero => rfl
  | succ n ih =>
    rw [bytesAt, bytesAt, h offset (by omega) (by omega),
      ih fun i hlow hhigh => h i (by omega) (by omega)]

/-- The bytes read are the only ones that matter. -/
theorem extractDword_congr (undef : Undefined) {buffer buffer' : Buffer} {startWord startBit : Nat}
    {len : Int} (hbit : startBit < 16)
    (h : ∀ i ∈ extractDwordReads buffer startWord startBit len, buffer i = buffer' i) :
    extractDword undef buffer startWord startBit len =
      extractDword undef buffer' startWord startBit len := by
  by_cases hshort : startBit + len ≤ 16
  · have hmem : ∀ i ∈ wordReads (startWord * 2), buffer i = buffer' i := by
      simpa only [extractDwordReads, if_pos hshort] using h
    have hword : word buffer (startWord * 2) = word buffer' (startWord * 2) := by
      rw [word, word, hmem _ (by simp [wordReads]), hmem _ (by simp [wordReads])]
    simp only [extractDword, if_pos hshort, hword]
  · obtain ⟨n, rfl⟩ : ∃ n : Nat, len = n := ⟨len.toNat, by omega⟩
    have hlen : 1 ≤ n := by omega
    rw [extractDwordReads_eq buffer startWord hbit hlen] at h
    rw [extractDword_eq undef buffer startWord hbit hlen,
      extractDword_eq undef buffer' startWord hbit hlen]
    rw [bytesAt_congr fun i hlow hhigh => h i (List.mem_range'_1.mpr ⟨hlow, hhigh⟩)]

section Bits

variable (buffer : Buffer)

/-- The bits of a buffer are counted from the most significant one of its first byte. -/
def bitAt (i : Nat) : Bool := (buffer (i / 8)).getMsbD (i % 8)

/-- The unsigned number whose bits are those of the field, the most significant one first. -/
def bitField (start : Nat) : (len : Nat) → Nat
  | 0 => 0
  | len + 1 => 2 * bitField start len + (bitAt buffer (start + len)).toNat

theorem bitField_lt (start len : Nat) : bitField buffer start len < 2 ^ len := by
  induction len with
  | zero => simp [bitField]
  | succ len ih =>
    have hbit := Bool.toNat_lt (bitAt buffer (start + len))
    rw [bitField, pow_succ]
    omega

theorem bitField_add (start a b : Nat) :
    bitField buffer start (a + b) =
      bitField buffer start a * 2 ^ b + bitField buffer (start + a) b := by
  induction b with
  | zero => simp [bitField]
  | succ b ih =>
    rw [← Nat.add_assoc, bitField, bitField, ih, pow_succ, Nat.add_assoc start a b]
    ring

theorem bitField_byte (i : Nat) : bitField buffer (8 * i) 8 = (buffer i).toNat := by
  have hbit (k : Nat) (hk : k < 8) : bitAt buffer (8 * i + k) = (buffer i).getMsbD k := by
    rw [bitAt, show (8 * i + k) / 8 = i by omega, show (8 * i + k) % 8 = k by omega]
  have hall : ∀ b : BitVec 8,
      2 * (2 * (2 * (2 * (2 * (2 * (2 * (2 * 0 + (b.getMsbD 0).toNat) + (b.getMsbD 1).toNat) +
        (b.getMsbD 2).toNat) + (b.getMsbD 3).toNat) + (b.getMsbD 4).toNat) +
        (b.getMsbD 5).toNat) + (b.getMsbD 6).toNat) + (b.getMsbD 7).toNat = b.toNat := by
    decide +kernel
  simp only [bitField, hbit 0 (by omega), hbit 1 (by omega), hbit 2 (by omega), hbit 3 (by omega),
    hbit 4 (by omega), hbit 5 (by omega), hbit 6 (by omega), hbit 7 (by omega)]
  exact hall (buffer i)

theorem bitField_bytes (offset n : Nat) :
    bitField buffer (8 * offset) (8 * n) = beNat (bytesAt buffer offset n) := by
  induction n with
  | zero => rfl
  | succ n ih =>
    have hlast : bytesAt buffer (offset + n) 1 = [buffer (offset + n)] := rfl
    rw [Nat.mul_succ, bitField_add, ih, ← Nat.mul_add, bitField_byte, bytesAt_add, hlast,
      beNat_concat]
    norm_num

/-- A field is what is left of the bytes around it when the bits on both sides are cut off. -/
theorem beNat_div_mod {start len n : Nat} (offset : Nat) (h : start + len ≤ 8 * n) :
    beNat (bytesAt buffer offset n) / 2 ^ (8 * n - start - len) % 2 ^ len =
      bitField buffer (8 * offset + start) len := by
  have hparts : 8 * n = start + len + (8 * n - start - len) := by omega
  have hbehind := bitField_lt buffer (8 * offset + (start + len)) (8 * n - start - len)
  have hfield := bitField_lt buffer (8 * offset + start) len
  rw [← bitField_bytes, hparts, bitField_add, bitField_add, ← hparts,
    Nat.mul_comm _ (2 ^ (8 * n - start - len)), Nat.mul_add_div (by positivity),
    Nat.div_eq_of_lt hbehind, Nat.add_zero, Nat.mul_comm _ (2 ^ len), Nat.mul_add_mod,
    Nat.mod_eq_of_lt hfield]

end Bits

/-- The 16-bit word has a bit of the field. -/
def Covers (start len w : Nat) : Prop := 16 * w < start + len ∧ start < 16 * (w + 1)

theorem mem_extractDwordReads (buffer : Buffer) (startWord : Nat) {startBit len : Nat}
    (hbit : startBit < 16) (hlen : 1 ≤ len) {i : Nat} :
    i ∈ extractDwordReads buffer startWord startBit len ↔
      Covers (16 * startWord + startBit) len (i / 2) := by
  rw [extractDwordReads_eq buffer startWord hbit hlen, List.mem_range'_1]
  unfold fieldWords Covers
  omega

theorem extractDword_eq_bitField (undef : Undefined) (buffer : Buffer) (startWord : Nat)
    {startBit len : Nat} (hbit : startBit < 16) (hlen : 1 ≤ len) :
    extractDword undef buffer startWord startBit len =
      bitField buffer (16 * startWord + startBit) len % 2 ^ 32 := by
  have hinside : startBit + len ≤ 8 * (2 * fieldWords startBit len) := by
    unfold fieldWords
    omega
  have hcut := beNat_div_mod buffer (startWord * 2) hinside
  rw [show 8 * (2 * fieldWords startBit len) = 16 * fieldWords startBit len by omega,
    show 8 * (startWord * 2) = 16 * startWord by omega] at hcut
  rw [extractDword_eq undef buffer startWord hbit hlen, hcut]

/-- What `extractDword` is for: the number that the bits of the field spell, of which the
words that have a bit of it are all that is read. -/
theorem extractDword_reads_field (undef : Undefined) (buffer : Buffer)
    (startWord startBit len : Nat) (hbit : startBit < 16) (hlen : 1 ≤ len) :
    extractDword undef buffer startWord startBit len =
        bitField buffer (16 * startWord + startBit) len % 2 ^ 32 ∧
      (∀ i, i ∈ extractDwordReads buffer startWord startBit len ↔
        Covers (16 * startWord + startBit) len (i / 2)) ∧
      (startBit + len ≤ 16 →
        extractDwordReads buffer startWord startBit len = [2 * startWord, 2 * startWord + 1]) ∧
      ∀ buffer' : Buffer,
        (∀ i, Covers (16 * startWord + startBit) len (i / 2) → buffer i = buffer' i) →
          extractDword undef buffer startWord startBit len =
            extractDword undef buffer' startWord startBit len := by
  refine ⟨extractDword_eq_bitField undef buffer startWord hbit hlen,
    fun i => mem_extractDwordReads buffer startWord hbit hlen, ?_, ?_⟩
  · intro hshort
    have hone := fieldWords_of_short hlen hshort
    rw [extractDwordReads_eq buffer startWord hbit hlen, hone, Nat.mul_comm]
    rfl
  · intro buffer' hsame
    exact extractDword_congr undef hbit fun i hi =>
      hsame i ((mem_extractDwordReads buffer startWord hbit hlen).mp hi)

/-- A field of 40 bits that starts in the middle of a word and keeps its last 32 bits. -/
theorem extractDword_reads_field_wrapped :
    let buffer : Buffer := fun i => BitVec.ofNat 8 (16 * i + 5)
    extractDword (fun _ _ => 0) buffer 1 4 40 = bitField buffer 20 40 % 2 ^ 32 ∧
      2 ^ 32 < bitField buffer 20 40 := by
  intro buffer
  exact ⟨(extractDword_reads_field (fun _ _ => 0) buffer 1 4 40 (by decide) (by decide)).1,
    by decide +kernel⟩

end AnalysePcap
