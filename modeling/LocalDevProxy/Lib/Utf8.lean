import Mathlib.Data.List.Basic

namespace LocalDevProxy.Lib.Utf8

def encode (text : List Char) : List UInt8 := text.flatMap String.utf8EncodeChar

theorem data_toByteArray (text : String) : text.toByteArray.data.toList = encode text.toList := by
  rw [← String.utf8Encode_toList]
  exact List.toList_data_toByteArray

theorem encode_ascii {c : Char} (hc : c.val ≤ 127) : String.utf8EncodeChar c = [c.val.toUInt8] :=
  String.utf8EncodeChar_eq_singleton (Char.utf8Size_eq_one_iff.mpr hc)

theorem le_or (x : UInt8) {m : UInt8} (hm : 128 ≤ m) : 128 ≤ x ||| m := by
  rw [UInt8.le_iff_toNat_le] at hm ⊢
  rw [UInt8.toNat_or]
  exact Nat.le_trans hm Nat.right_le_or

/-- A character outside ASCII has no byte of an ASCII character. -/
theorem le_of_mem_encode {c : Char} (hc : 127 < c.val) : ∀ b ∈ String.utf8EncodeChar c, 128 ≤ b := by
  intro b hb
  rcases Char.utf8Size_eq c with hsize | hsize | hsize | hsize
  · exact absurd hc (UInt32.not_lt.mpr (Char.utf8Size_eq_one_iff.mp hsize))
  · rw [String.utf8EncodeChar_eq_cons_cons hsize] at hb
    simp only [List.mem_cons, List.not_mem_nil, or_false] at hb
    rcases hb with rfl | rfl <;> exact le_or _ (by decide)
  · rw [String.utf8EncodeChar_eq_cons_cons_cons hsize] at hb
    simp only [List.mem_cons, List.not_mem_nil, or_false] at hb
    rcases hb with rfl | rfl | rfl <;> exact le_or _ (by decide)
  · rw [String.utf8EncodeChar_eq_cons_cons_cons_cons hsize] at hb
    simp only [List.mem_cons, List.not_mem_nil, or_false] at hb
    rcases hb with rfl | rfl | rfl | rfl <;> exact le_or _ (by decide)

theorem ascii_byte {c : Char} (hc : c.val ≤ 127) : c.val.toUInt8 < 128 := by
  have hlow : c.val.toNat ≤ 127 := UInt32.le_iff_toNat_le.mp hc
  have hbyte : c.val.toUInt8.toNat < 128 := by
    rw [UInt32.toNat_toUInt8]
    omega
  exact UInt8.lt_iff_toNat_lt.mpr hbyte

/-- The byte of an ASCII character stands for that character alone. -/
theorem mem_encodeChar {c d : Char} (hc : c.val ≤ 127) (h : c.val.toUInt8 ∈ String.utf8EncodeChar d) : d = c := by
  by_cases hd : d.val ≤ 127
  · rw [encode_ascii hd, List.mem_singleton] at h
    have hbyte := congrArg UInt8.toNat h
    rw [UInt32.toNat_toUInt8, UInt32.toNat_toUInt8] at hbyte
    have hclow : c.val.toNat ≤ 127 := UInt32.le_iff_toNat_le.mp hc
    have hdlow : d.val.toNat ≤ 127 := UInt32.le_iff_toNat_le.mp hd
    refine Char.ext (UInt32.toNat_inj.mp ?_)
    omega
  · have hhigh := le_of_mem_encode (UInt32.not_le.mp hd) _ h
    exact absurd (ascii_byte hc) (UInt8.not_lt.mpr hhigh)

theorem mem_encode {c : Char} (hc : c.val ≤ 127) (text : List Char) :
    c.val.toUInt8 ∈ encode text ↔ c ∈ text := by
  rw [encode, List.mem_flatMap]
  constructor
  · rintro ⟨d, hd, hmem⟩
    rwa [← mem_encodeChar hc hmem]
  · intro hmem
    refine ⟨c, hmem, ?_⟩
    rw [encode_ascii hc]
    exact List.mem_singleton_self _

end LocalDevProxy.Lib.Utf8
