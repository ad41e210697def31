import Mathlib
import SqlFormat.Text.Utf8

/-!
# Reading the bytes of a text

The bytes of a text are read as that text again: no byte of it is taken for one that breaks a
character off.

Results: `decodeHead_encode` (one character), `decodeLossy_encode`.
-/

namespace SqlFormat.Text

variable {n v : Nat}

theorem toNat_ofNat (h : n < 256) : (UInt8.ofNat n).toNat = n := by
  rw [UInt8.toNat_ofNat']
  omega

theorem ofNat_lt (limit : UInt8) (h : n < 256) : UInt8.ofNat n < limit ↔ n < limit.toNat := by
  rw [UInt8.lt_iff_toNat_lt, toNat_ofNat h]

theorem within_ofNat (low high : UInt8) (h : n < 256) :
    (decide (low ≤ UInt8.ofNat n) && decide (UInt8.ofNat n ≤ high)) =
      decide (low.toNat ≤ n ∧ n ≤ high.toNat) := by
  simp only [UInt8.le_iff_toNat_le, toNat_ofNat h, Bool.decide_and]

theorem ofNat_beq (other : UInt8) (h : n < 256) :
    (UInt8.ofNat n == other) = decide (n = other.toNat) := by
  rw [Bool.eq_iff_iff, beq_iff_eq, decide_eq_true_iff, ← UInt8.toNat_inj, toNat_ofNat h]

/-! ## Characters of one to four bytes -/

/-- The bytes behind the first one continue a character. -/
theorem isContinuation_ofNat (v : Nat) : isContinuation (UInt8.ofNat (v % 64 + 128)) = true := by
  rw [isContinuation, within_ofNat _ _ (by omega), decide_eq_true_iff]
  exact ⟨Nat.le_add_left _ _, Nat.le_of_lt_succ (by change _ < 192; omega)⟩

theorem andContinuation_ofNat (n v : Nat) :
    andContinuation n (UInt8.ofNat (v % 64 + 128)) = 64 * n + v % 64 := by
  rw [andContinuation, toNat_ofNat (by omega)]
  omega

theorem decodeHead_one (h : v < 0x80) (rest : List UInt8) :
    decodeHead (UInt8.ofNat v) rest = (some (Char.ofNat v), 0) := by
  rw [decodeHead.eq_def, if_pos ((ofNat_lt _ (by omega)).mpr h), toNat_ofNat (by omega)]

theorem decodeHead_two (h : 0x80 ≤ v) (h' : v < 0x800) (rest : List UInt8) :
    decodeHead (UInt8.ofNat (v / 64 % 32 + 192)) (UInt8.ofNat (v % 64 + 128) :: rest) =
      (some (Char.ofNat v), 1) := by
  simp (disch := omega) only [decodeHead, ofNat_lt, within_ofNat, toNat_ofNat, leading,
    isContinuation_ofNat, andContinuation_ofNat, UInt8.reduceToNat, decide_eq_true_eq, if_true]
  rw [if_neg (by omega), if_pos (by omega)]
  congr 3
  omega

theorem decodeHead_three (h : 0x800 ≤ v) (h' : v < 0xd800 ∨ 0xdfff < v ∧ v < 0x10000)
    (rest : List UInt8) :
    decodeHead (UInt8.ofNat (v / 4096 % 16 + 224))
        (UInt8.ofNat (v / 64 % 64 + 128) :: UInt8.ofNat (v % 64 + 128) :: rest) =
      (some (Char.ofNat v), 2) := by
  have hsecond : startsThree (UInt8.ofNat (v / 4096 % 16 + 224)) (UInt8.ofNat (v / 64 % 64 + 128)) =
      true := by
    simp (disch := omega) only [startsThree, ofNat_beq, within_ofNat, isContinuation_ofNat,
      UInt8.reduceToNat, decide_eq_true_eq]
    split_ifs <;> simp only [decide_eq_true_eq] <;> omega
  simp (disch := omega) only [decodeHead, ofNat_lt, within_ofNat, toNat_ofNat, leading, hsecond,
    isContinuation_ofNat, andContinuation_ofNat, UInt8.reduceToNat, decide_eq_true_eq, if_true]
  rw [if_neg (by omega), if_neg (by omega), if_pos (by omega)]
  congr 3
  omega

theorem decodeHead_four (h : 0x10000 ≤ v) (h' : v < 0x110000) (rest : List UInt8) :
    decodeHead (UInt8.ofNat (v / 262144 % 8 + 240))
        (UInt8.ofNat (v / 4096 % 64 + 128) :: UInt8.ofNat (v / 64 % 64 + 128) ::
          UInt8.ofNat (v % 64 + 128) :: rest) =
      (some (Char.ofNat v), 3) := by
  have hsecond : startsFour (UInt8.ofNat (v / 262144 % 8 + 240))
      (UInt8.ofNat (v / 4096 % 64 + 128)) = true := by
    simp (disch := omega) only [startsFour, ofNat_beq, within_ofNat, isContinuation_ofNat,
      UInt8.reduceToNat, decide_eq_true_eq]
    split_ifs <;> simp only [decide_eq_true_eq] <;> omega
  simp (disch := omega) only [decodeHead, ofNat_lt, within_ofNat, toNat_ofNat, leading, hsecond,
    isContinuation_ofNat, andContinuation_ofNat, UInt8.reduceToNat, decide_eq_true_eq, if_true]
  rw [if_neg (by omega), if_neg (by omega), if_neg (by omega), if_pos (by omega)]
  congr 3
  omega

/-- The first bytes of a text are those of its first character, which is read back. -/
theorem decodeHead_encode (c : Char) (rest : List UInt8) :
    ∃ b bs, String.utf8EncodeChar c = b :: bs ∧
      decodeHead b (bs ++ rest) = (some c, bs.length) := by
  have hvalid : c.val.toNat < 0xd800 ∨ 0xdfff < c.val.toNat ∧ c.val.toNat < 0x110000 := c.valid
  have hchar : Char.ofNat c.val.toNat = c := Char.ofNat_toNat c
  rw [String.utf8EncodeChar]
  generalize c.val.toNat = v at hvalid hchar
  subst hchar
  split_ifs
  · exact ⟨_, _, rfl, decodeHead_one (by omega) rest⟩
  · exact ⟨_, _, rfl, decodeHead_two (by omega) (by omega) rest⟩
  · exact ⟨_, _, rfl, decodeHead_three (by omega) (by omega) rest⟩
  · exact ⟨_, _, rfl, decodeHead_four (by omega) (by omega) rest⟩

theorem decodeAll_encode (cs : List Char) :
    decodeAll (cs.flatMap String.utf8EncodeChar) = cs.map some := by
  induction cs with
  | nil =>
    rw [List.flatMap_nil, decodeAll]
    rfl
  | cons c cs ih =>
    obtain ⟨b, bs, hbytes, hhead⟩ := decodeHead_encode c (cs.flatMap String.utf8EncodeChar)
    rw [List.flatMap_cons, hbytes, List.cons_append, decodeAll]
    simp only [hhead, List.drop_left, ih, List.map_cons]

/-- The bytes of a text are read as the text. -/
theorem decodeLossy_encode (cs : List Char) :
    decodeLossy (cs.flatMap String.utf8EncodeChar) = String.ofList cs := by
  rw [decodeLossy, decodeAll_encode, List.map_map]
  congr 1
  exact List.map_id' cs

theorem toList_toUTF8 (text : String) :
    text.toUTF8.data.toList = text.toList.flatMap String.utf8EncodeChar := by
  change text.toByteArray.data.toList = _
  rw [← String.utf8Encode_toList, List.utf8Encode, List.data_toByteArray]

theorem decodeLossy_toUTF8 (text : String) : decodeLossy text.toUTF8.data.toList = text := by
  rw [toList_toUTF8, decodeLossy_encode, String.ofList_toList]

end SqlFormat.Text
