import Mathlib.Data.List.TakeWhile
import Mathlib.Tactic.Common
import Tunescript.Text.Utf8

/-!
# Encodings that are read back

A character is encoded by a sequence of bytes whose first byte tells how many follow, and every such
sequence encodes the character of its value (`sequence_of_encodeChar`, `encodeChar_value`).  So
bytes are decoded to a text exactly if they are its encoding (`decode_eq_ok_iff`).  Unifying the
line ends of a text changes it exactly if there is a carriage return in it
(`unifyLineEnds_eq_self_iff`).
-/

namespace Tunescript.Text

variable {a b : UInt8} {bs rest : Bytes} {c : Char} {t : Text}

/-- The bytes can follow a first byte of a character. -/
def Continues (a : UInt8) : Bytes → Prop
  | [] => True
  | b :: bs => canFollow a b ∧ ∀ c ∈ bs, isContinuation c

/-- The bytes behind a first byte are as many as it asks for, and can follow it. -/
structure Sequence (a : UInt8) (bs : Bytes) : Prop where
  /-- The first byte asks for these many bytes. -/
  length : sequenceLength? a = some (bs.length + 1)
  /-- Each of them can follow. -/
  continues : Continues a bs

/-- The number that the bits of a sequence make. -/
def value (a : UInt8) (bs : Bytes) : Nat :=
  bs.foldl (fun n b => n * 64 + b.toNat % 64) (leadingBits a (bs.length + 1))

section Continuation

/-- The bytes that can follow a first byte, up to the first that cannot. -/
def following (a : UInt8) : Bytes → Bytes
  | [] => []
  | b :: bs => if canFollow a b then b :: bs.takeWhile isContinuation else []

theorem map_takeWhile_zipIdx_succ (a : UInt8) (bs : Bytes) (n : Nat) :
  ((bs.zipIdx (n + 1)).takeWhile fun x =>
      if x.2 = 0 then canFollow a x.1 else isContinuation x.1).map (·.1) =
    bs.takeWhile isContinuation
  := by
  induction bs generalizing n with
  | nil => rfl
  | cons b bs ih =>
    rw [List.zipIdx_cons, List.takeWhile_cons, List.takeWhile_cons, if_neg (Nat.succ_ne_zero n)]
    split
    · rw [List.map_cons, ih]
    · rfl

theorem map_takeWhile_zipIdx (a : UInt8) (bs : Bytes) :
  (bs.zipIdx.takeWhile fun x => if x.2 = 0 then canFollow a x.1 else isContinuation x.1).map (·.1) =
    following a bs
  := by
  obtain _ | ⟨b, bs⟩ := bs
  · rfl
  · rw [List.zipIdx_cons, List.takeWhile_cons, if_pos rfl, following]
    split
    · rw [List.map_cons, map_takeWhile_zipIdx_succ]
    · rfl

theorem following_prefix (a : UInt8) (bs : Bytes) :
  following a bs <+: bs
  := by
  obtain _ | ⟨b, bs⟩ := bs
  · apply List.prefix_refl
  · rw [following]
    split
    · apply (List.prefix_cons_inj b).mpr (List.takeWhile_prefix _)
    · apply List.nil_prefix

theorem following_eq_self_iff :
  following a bs = bs ↔ Continues a bs
  := by
  obtain _ | ⟨b, bs⟩ := bs
  · exact iff_of_true rfl trivial
  · rw [following, Continues]
    split
    · rename_i hb
      rw [List.cons_inj_right, List.takeWhile_eq_self_iff, and_iff_right hb]
    · rename_i hb
      exact iff_of_false nofun fun h => hb h.1

/-- The bytes in front are taken if they can follow the first byte. -/
theorem continuation_eq_ok_iff {count : Nat} :
  continuation a count rest = .ok bs ↔ bs <+: rest ∧ bs.length = count ∧ Continues a bs
  := by
  have hunfold : continuation a count rest =
      if (following a (rest.take count)).length = count then .ok (following a (rest.take count))
      else if (following a (rest.take count)).length = rest.length then
        .error (a :: following a (rest.take count), .unexpectedEnd)
      else .error (a :: following a (rest.take count), .invalidContinuation) := by
    rw [← map_takeWhile_zipIdx]
    rfl
  have hprefix := following_prefix a (rest.take count)
  rw [hunfold]
  constructor
  · intro h
    split at h
    · rename_i hlength
      cases h
      have hall : following a (rest.take count) = rest.take count := by
        apply hprefix.eq_of_length_le
        rw [hlength]
        apply List.length_take_le
      rw [hall] at hlength ⊢
      exact ⟨List.take_prefix count rest, hlength, following_eq_self_iff.mp hall⟩
    · split at h
      · cases h
      · cases h
  · rintro ⟨hbs, rfl, hcontinues⟩
    have htake : rest.take bs.length = bs := (List.prefix_iff_eq_take.mp hbs).symm
    rw [htake, following_eq_self_iff.mpr hcontinues, if_pos rfl]

end Continuation

section Numbers

theorem isContinuation_iff :
  isContinuation b ↔ 128 ≤ b.toNat ∧ b.toNat < 192
  := by
  rw [isContinuation, beq_iff_eq]
  omega

theorem canFollow_iff :
  canFollow a b ↔ (128 ≤ b.toNat ∧ b.toNat < 192) ∧ (a.toNat = 0xe0 → 0xa0 ≤ b.toNat) ∧
    (a.toNat = 0xed → b.toNat ≤ 0x9f) ∧ (a.toNat = 0xf0 → 0x90 ≤ b.toNat) ∧
    (a.toNat = 0xf4 → b.toNat ≤ 0x8f)
  := by
  rw [canFollow, Bool.and_eq_true, isContinuation_iff]
  apply and_congr_right
  intro hb
  simp only [← UInt8.toNat_inj, UInt8.le_iff_toNat_le, UInt8.reduceToNat]
  grind

theorem sequenceLength?_eq_some_iff {n : Nat} :
  sequenceLength? a = some n ↔ n = 1 ∧ a.toNat < 0x80 ∨ n = 2 ∧ 0xc2 ≤ a.toNat ∧ a.toNat < 0xe0 ∨
    n = 3 ∧ 0xe0 ≤ a.toNat ∧ a.toNat < 0xf0 ∨ n = 4 ∧ 0xf0 ≤ a.toNat ∧ a.toNat < 0xf5
  := by
  rw [sequenceLength?]
  simp only [UInt8.lt_iff_toNat_lt, UInt8.reduceToNat]
  grind

end Numbers

section Sequences

variable {b₁ b₂ b₃ : UInt8}

theorem sequence_iff :
  Sequence a bs ↔ sequenceLength? a = some (bs.length + 1) ∧ Continues a bs
  := ⟨fun h => ⟨h.length, h.continues⟩, fun h => ⟨h.1, h.2⟩⟩

theorem sequence_nil_iff :
  Sequence a [] ↔ a.toNat < 0x80
  := by
  simp [sequence_iff, sequenceLength?_eq_some_iff, Continues]

theorem sequence_one_iff :
  Sequence a [b₁] ↔ (0xc2 ≤ a.toNat ∧ a.toNat < 0xe0) ∧ 128 ≤ b₁.toNat ∧ b₁.toNat < 192
  := by
  simp [sequence_iff, sequenceLength?_eq_some_iff, Continues, canFollow_iff]
  omega

theorem sequence_two_iff :
  Sequence a [b₁, b₂] ↔ (0xe0 ≤ a.toNat ∧ a.toNat < 0xf0) ∧
    ((128 ≤ b₁.toNat ∧ b₁.toNat < 192) ∧ (a.toNat = 0xe0 → 0xa0 ≤ b₁.toNat) ∧
      (a.toNat = 0xed → b₁.toNat ≤ 0x9f)) ∧ 128 ≤ b₂.toNat ∧ b₂.toNat < 192
  := by
  simp [sequence_iff, sequenceLength?_eq_some_iff, Continues, canFollow_iff, isContinuation_iff]
  omega

theorem sequence_three_iff :
  Sequence a [b₁, b₂, b₃] ↔ (0xf0 ≤ a.toNat ∧ a.toNat < 0xf5) ∧
    ((128 ≤ b₁.toNat ∧ b₁.toNat < 192) ∧ (a.toNat = 0xf0 → 0x90 ≤ b₁.toNat) ∧
      (a.toNat = 0xf4 → b₁.toNat ≤ 0x8f)) ∧ (128 ≤ b₂.toNat ∧ b₂.toNat < 192) ∧
    128 ≤ b₃.toNat ∧ b₃.toNat < 192
  := by
  simp [sequence_iff, sequenceLength?_eq_some_iff, Continues, canFollow_iff, isContinuation_iff]
  omega

/-- A first byte asks for three bytes at most. -/
theorem Sequence.length_le (h : Sequence a bs) :
  bs.length ≤ 3
  := by
  have hlength := sequenceLength?_eq_some_iff.mp h.length
  omega

theorem value_nil :
  value a [] = a.toNat
  := rfl

theorem value_one :
  value a [b₁] = a.toNat % 32 * 64 + b₁.toNat % 64
  := rfl

theorem value_two :
  value a [b₁, b₂] = (a.toNat % 16 * 64 + b₁.toNat % 64) * 64 + b₂.toNat % 64
  := rfl

theorem value_three :
  value a [b₁, b₂, b₃] =
    ((a.toNat % 8 * 64 + b₁.toNat % 64) * 64 + b₂.toNat % 64) * 64 + b₃.toNat % 64
  := rfl

end Sequences

section Characters

theorem toNat_ofNat_of_lt {n : Nat} (h : n < 256) :
  (UInt8.ofNat n).toNat = n
  := by
  rw [UInt8.toNat_ofNat', Nat.mod_eq_of_lt h]

theorem toNat_tail (n : Nat) :
  (UInt8.ofNat (0x80 + n % 64)).toNat = 0x80 + n % 64
  := toNat_ofNat_of_lt (by omega)

/-- The encoding of a character is a sequence whose value is the number of the character. -/
theorem sequence_of_encodeChar (c : Char) :
  ∃ a bs, encodeChar c = a :: bs ∧ Sequence a bs ∧ value a bs = c.toNat
  := by
  have hvalid : c.toNat < 0xd800 ∨ 0xdfff < c.toNat ∧ c.toNat < 0x110000 := c.valid
  rw [encodeChar]
  dsimp only
  generalize c.toNat = n at hvalid ⊢
  split
  · have hlead : (UInt8.ofNat n).toNat = n := toNat_ofNat_of_lt (by omega)
    refine ⟨_, _, rfl, ?_, ?_⟩
    · rw [sequence_nil_iff, hlead]
      assumption
    · rw [value_nil, hlead]
  · split
    · have hlead : (UInt8.ofNat (0xc0 + n / 64)).toNat = 0xc0 + n / 64 :=
        toNat_ofNat_of_lt (by omega)
      refine ⟨_, _, rfl, ?_, ?_⟩
      · rw [sequence_one_iff, hlead, toNat_tail]
        omega
      · rw [value_one, hlead, toNat_tail]
        omega
    · split
      · have hlead : (UInt8.ofNat (0xe0 + n / 4096)).toNat = 0xe0 + n / 4096 :=
          toNat_ofNat_of_lt (by omega)
        refine ⟨_, _, rfl, ?_, ?_⟩
        · rw [sequence_two_iff, hlead, toNat_tail, toNat_tail]
          omega
        · rw [value_two, hlead, toNat_tail, toNat_tail]
          omega
      · have hlead : (UInt8.ofNat (0xf0 + n / 262144)).toNat = 0xf0 + n / 262144 :=
          toNat_ofNat_of_lt (by omega)
        refine ⟨_, _, rfl, ?_, ?_⟩
        · rw [sequence_three_iff, hlead, toNat_tail, toNat_tail, toNat_tail]
          omega
        · rw [value_three, hlead, toNat_tail, toNat_tail, toNat_tail]
          omega

theorem ofNat_of_eq {n : Nat} (h : n = a.toNat) :
  UInt8.ofNat n = a
  := by
  rw [h, UInt8.ofNat_toNat]

theorem toNat_ofNat_of_valid {n : Nat} (h : n < 0xd800 ∨ 0xdfff < n ∧ n < 0x110000) :
  (Char.ofNat n).toNat = n
  := by
  rw [Char.ofNat, dif_pos h]
  rfl

/-- A sequence is the encoding of the character with its value. -/
theorem encodeChar_value (h : Sequence a bs) :
  encodeChar (Char.ofNat (value a bs)) = a :: bs
  := by
  have hlength := h.length_le
  rw [encodeChar]
  match bs with
  | [] =>
    rw [sequence_nil_iff] at h
    rw [toNat_ofNat_of_valid (by rw [value_nil]; omega), value_nil]
    dsimp only
    rw [if_pos h, UInt8.ofNat_toNat]
  | [b₁] =>
    rw [sequence_one_iff] at h
    rw [toNat_ofNat_of_valid (by rw [value_one]; omega), value_one]
    dsimp only
    rw [if_neg (by omega), if_pos (by omega)]
    congr
    · apply ofNat_of_eq
      omega
    · apply ofNat_of_eq
      omega
  | [b₁, b₂] =>
    rw [sequence_two_iff] at h
    rw [toNat_ofNat_of_valid (by rw [value_two]; omega), value_two]
    dsimp only
    rw [if_neg (by omega), if_neg (by omega), if_pos (by omega)]
    congr
    · apply ofNat_of_eq
      omega
    · apply ofNat_of_eq
      omega
    · apply ofNat_of_eq
      omega
  | [b₁, b₂, b₃] =>
    rw [sequence_three_iff] at h
    rw [toNat_ofNat_of_valid (by rw [value_three]; omega), value_three]
    dsimp only
    rw [if_neg (by omega), if_neg (by omega), if_neg (by omega)]
    congr
    · apply ofNat_of_eq
      omega
    · apply ofNat_of_eq
      omega
    · apply ofNat_of_eq
      omega
    · apply ofNat_of_eq
      omega
  | _ :: _ :: _ :: _ :: _ =>
    simp only [List.length_cons] at hlength
    omega

end Characters

section Texts

/-- A character is decoded from bytes exactly if they start with its encoding. -/
theorem decodeChar_eq_ok_iff {n : Nat} :
  decodeChar a rest = .ok (c, n) ↔ ∃ r, a :: rest = encodeChar c ++ r ∧ n = (encodeChar c).length
  := by
  rw [decodeChar]
  constructor
  · intro h
    split at h
    · cases h
    · rename_i length hlength
      cases htaken : continuation a (length - 1) rest with
      | error e =>
        rw [htaken] at h
        cases h
      | ok taken =>
        rw [htaken] at h
        obtain ⟨⟨r, rfl⟩, hcount, hcontinues⟩ := continuation_eq_ok_iff.mp htaken
        obtain rfl : length = taken.length + 1 := by
          have := sequenceLength?_eq_some_iff.mp hlength
          omega
        cases h
        have hencode := encodeChar_value ⟨hlength, hcontinues⟩
        rw [value] at hencode
        refine ⟨r, ?_, ?_⟩
        · rw [hencode, List.cons_append]
        · rw [hencode, List.length_cons]
  · rintro ⟨r, h, rfl⟩
    obtain ⟨a', bs, hencode, hsequence, hvalue⟩ := sequence_of_encodeChar c
    rw [hencode, List.cons_append] at h
    obtain ⟨rfl, rfl⟩ := List.cons_eq_cons.mp h
    have htaken : continuation a bs.length (bs ++ r) = .ok bs :=
      continuation_eq_ok_iff.mpr ⟨List.prefix_append bs r, rfl, hsequence.continues⟩
    rw [hsequence.length, hencode]
    dsimp only
    rw [Nat.add_sub_cancel, htaken, ← Char.ofNat_toNat c, ← hvalue]
    rfl

variable {position : Nat} {found : Text}

/-- Bytes that are used up are skipped. -/
theorem decodeFrom_skip (bs rest : Bytes) :
  decodeFrom position bs.length found (bs ++ rest) = decodeFrom (position + bs.length) 0 found rest
  := by
  induction bs generalizing position with
  | nil => rfl
  | cons b bs ih =>
    rw [List.cons_append, List.length_cons, decodeFrom, ih, Nat.add_assoc, Nat.add_comm 1]

/-- The encoding of a character in front of bytes is decoded to the character in front. -/
theorem decodeFrom_encodeChar (c : Char) (rest : Bytes) :
  decodeFrom position 0 found (encodeChar c ++ rest) =
    decodeFrom (position + (encodeChar c).length) 0 (c :: found) rest
  := by
  obtain ⟨a, bs, hencode, -, -⟩ := sequence_of_encodeChar c
  have hdecode : decodeChar a (bs ++ rest) = .ok (c, (encodeChar c).length) := by
    apply decodeChar_eq_ok_iff.mpr ⟨rest, _, rfl⟩
    rw [hencode, List.cons_append]
  rw [hencode] at hdecode ⊢
  rw [List.cons_append, decodeFrom, hdecode]
  dsimp only
  rw [List.length_cons, Nat.add_sub_cancel, decodeFrom_skip, Nat.add_assoc, Nat.add_comm 1]

theorem encode_cons (c : Char) (t : Text) :
  encode (c :: t) = encodeChar c ++ encode t
  := List.flatMap_cons

theorem decodeFrom_encode (t : Text) :
  decodeFrom position 0 found (encode t) = .ok (found.reverse ++ t)
  := by
  induction t generalizing position found with
  | nil =>
    rw [List.append_nil]
    rfl
  | cons c t ih =>
    rw [encode_cons, decodeFrom_encodeChar, ih, List.reverse_cons, List.append_assoc,
      List.singleton_append]

theorem encode_of_decodeFrom {bytes : Bytes} (h : decodeFrom position 0 found bytes = .ok t) :
  ∃ u, bytes = encode u
  := by
  induction hsize : bytes.length using Nat.strong_induction_on generalizing position found
    bytes with
  | _ size ih =>
    obtain _ | ⟨a, rest⟩ := bytes
    · exact ⟨[], rfl⟩
    · cases hdecode : decodeChar a rest with
      | error e =>
        rw [decodeFrom, hdecode] at h
        cases h
      | ok r =>
        obtain ⟨c, n⟩ := r
        obtain ⟨r, hbytes, -⟩ := decodeChar_eq_ok_iff.mp hdecode
        obtain ⟨b, bs, hencode, -, -⟩ := sequence_of_encodeChar c
        rw [hbytes, decodeFrom_encodeChar] at h
        have hshorter : r.length < size := by
          rw [← hsize, hbytes, hencode, List.length_append, List.length_cons]
          omega
        obtain ⟨u, rfl⟩ := ih _ hshorter h rfl
        use c :: u
        rw [hbytes, encode_cons]

/-- Bytes are decoded to a text exactly if they are its encoding. -/
theorem decode_eq_ok_iff {bytes : Bytes} :
  decode bytes = .ok t ↔ bytes = encode t
  := by
  constructor
  · intro h
    obtain ⟨u, rfl⟩ := encode_of_decodeFrom h
    rw [decode, decodeFrom_encode] at h
    cases h
    rfl
  · rintro rfl
    apply decodeFrom_encode

theorem encode_inj {t u : Text} :
  encode t = encode u ↔ t = u
  := by
  constructor
  · intro h
    apply Except.ok.inj (ε := DecodeError)
    rw [← decode_eq_ok_iff.mpr h, decode_eq_ok_iff.mpr rfl]
  · rintro rfl
    rfl

end Texts

section LineEnds

/-- No carriage return is left when the line ends are unified. -/
theorem not_mem_unifyLineEnds (t : Text) :
  '\r' ∉ unifyLineEnds t
  := by
  fun_induction unifyLineEnds t with
  | case1 => apply List.not_mem_nil
  | case2 t ih => simp [ih]
  | case3 c t _ ih =>
    rw [List.mem_cons, not_or]
    refine ⟨?_, ih⟩
    split
    · decide
    · rename_i hc
      apply Ne.symm hc

/-- Unifying the line ends adds nothing but line ends. -/
theorem mem_of_mem_unifyLineEnds {c : Char} (h : c ∈ unifyLineEnds t) (hc : c ≠ '\n') :
  c ∈ t
  := by
  fun_induction unifyLineEnds t with
  | case1 => exact h
  | case2 t ih => simp_all
  | case3 d t _ ih =>
    obtain rfl | h := List.mem_cons.mp h
    · split at hc
      · exact absurd rfl hc
      · simp_all
    · exact List.mem_cons_of_mem _ (ih h)

/-- Unifying the line ends changes a text exactly if there is a carriage return in it. -/
theorem unifyLineEnds_eq_self_iff :
  unifyLineEnds t = t ↔ '\r' ∉ t
  := by
  constructor
  · intro h
    rw [← h]
    apply not_mem_unifyLineEnds
  · intro h
    fun_induction unifyLineEnds t with
    | case1 => rfl
    | case2 t ih => simp at h
    | case3 c t _ ih =>
      rw [List.mem_cons, not_or] at h
      rw [if_neg (Ne.symm h.1), ih h.2]

end LineEnds

end Tunescript.Text
