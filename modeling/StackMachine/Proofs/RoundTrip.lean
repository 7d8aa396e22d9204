import StackMachine.Encoding
import StackMachine.Program

/-!
# `StackMachine.Proofs.RoundTrip`: words and bytes stand for each other

A program is written by dividing residues into bytes, and read by folding bytes into a number
that is then wrapped. `encode_decode_inverse`: the two are inverse to each other, up to wrapping,
and reading accepts exactly what writing produces.

- `decodeWord_encodeWord` and `encodeWord_decodeWord` are both directions for one word. The second
  one makes the encoding canonical: no word has two spellings.
- `whole_induction` takes a sequence of bytes apart word by word. Whatever is said of whole
  sequences is proved by it.
- `decode_eq_error_iff` and `decode_of_whole` say when reading is refused, and what it gives if it
  is not.
- `Program.ofInts_map_wrap`: integers make the same program as the words that they wrap to, and so
  as the file that they were written to.
-/

set_option autoImplicit false

namespace StackMachine

/-- A program made of words is the one made of the integers that wrap to them. So a program does
not change when it is written to a file and read back. -/
theorem Program.ofInts_map_wrap (vs : List Int) : ofInts (vs.map Word.wrap) = ofInts vs := by
  have hwrap : Word.wrap ∘ Word.wrap = Word.wrap :=
    funext fun v => Word.wrap_eq_self (Word.wrap_inRange v)
  unfold ofInts
  by_cases h : vs = []
  · rw [dif_pos h, dif_pos (by rw [h]; rfl)]
  · rw [dif_neg h, dif_neg (mt List.map_eq_nil_iff.mp h)]
    refine congrArg Except.ok (Program.ext ?_)
    show ((vs.map Word.wrap).map Word.wrap).toArray = (vs.map Word.wrap).toArray
    rw [List.map_map, hwrap]

namespace Encoding

/-! ### One word -/

/-- The number that four bytes spell, most significant byte first. -/
def spelled (a b c d : UInt8) : Nat := ((a.toNat * 256 + b.toNat) * 256 + c.toNat) * 256 + d.toNat

/-- Four bytes spell a residue. -/
private theorem spelled_lt (a b c d : UInt8) : spelled a b c d < 4294967296 := by
  have ha := a.toNat_lt
  have hb := b.toNat_lt
  have hc := c.toNat_lt
  have hd := d.toNat_lt
  unfold spelled
  omega

/-- Four bytes are found again in the number that they spell. Each is what is left of a quotient
when only the lowest eight bits are kept. -/
private theorem bytes_of_spelled (a b c d : UInt8) :
    [UInt8.ofNat (spelled a b c d / 256 / 256 / 256), UInt8.ofNat (spelled a b c d / 256 / 256),
      UInt8.ofNat (spelled a b c d / 256), UInt8.ofNat (spelled a b c d)] = [a, b, c, d] := by
  have ha := a.toNat_lt
  have hb := b.toNat_lt
  have hc := c.toNat_lt
  have hd := d.toNat_lt
  have hbyte {n : Nat} {x : UInt8} (h : n % 256 = x.toNat) : UInt8.ofNat n = x := by
    rw [← UInt8.toNat_inj, UInt8.toNat_ofNat', h]
  unfold spelled
  rw [hbyte (x := a) (by omega), hbyte (x := b) (by omega), hbyte (x := c) (by omega),
    hbyte (x := d) (by omega)]

/-- The bytes of a residue spell that residue. With `bytes_of_spelled`, this is the whole of the
arithmetic. -/
private theorem spelled_of_lt {n : Nat} (h : n < 4294967296) :
    spelled (UInt8.ofNat (n / 256 / 256 / 256)) (UInt8.ofNat (n / 256 / 256))
      (UInt8.ofNat (n / 256)) (UInt8.ofNat n) = n := by
  simp only [spelled, UInt8.toNat_ofNat']
  omega

/-- The residue of an integer as a natural number, and below the number of words. Bytes are taken
from natural numbers, so every integer comes down to this one. -/
private theorem toNat_emod (v : Int) : ((v % Word.modulus).toNat : Int) = v % Word.modulus ∧
    (v % Word.modulus).toNat < 4294967296 := by
  rw [Word.modulus_eq]
  omega

/-- The bytes of an integer are read as the word that it wraps to. The higher bits are lost in
writing, not in reading. -/
theorem decodeWord_encodeWord (v : Int) :
    ∃ a b c d, encodeWord v = [a, b, c, d] ∧ decodeWord a b c d = Word.wrap v := by
  obtain ⟨hcast, hlt⟩ := toNat_emod v
  refine ⟨_, _, _, _, rfl, ?_⟩
  show Word.wrap (spelled _ _ _ _ : Nat) = Word.wrap v
  rw [spelled_of_lt hlt, hcast, Word.wrap_emod]

/-- Any four bytes are the bytes of the word that they are read as. So every file of whole words is
canonical. -/
theorem encodeWord_decodeWord (a b c d : UInt8) :
    encodeWord (decodeWord a b c d) = [a, b, c, d] := by
  have hresidue : decodeWord a b c d % Word.modulus = (spelled a b c d : Nat) := by
    show Word.wrap (spelled a b c d : Nat) % Word.modulus = _
    rw [Word.emod_wrap, Word.modulus_eq]
    have hlt := spelled_lt a b c d
    omega
  unfold encodeWord
  rw [hresidue, Int.toNat_natCast]
  exact bytes_of_spelled a b c d

/-! ### Sequences of words -/

/-- Induction on a whole number of words, word by word. It follows the recursion of the decoder,
without its cases for the bytes that are left over. -/
@[elab_as_elim]
theorem whole_induction {P : List UInt8 → Prop} (nil : P [])
    (word : ∀ a b c d rest, P rest → P (a :: b :: c :: d :: rest)) :
    ∀ bytes : List UInt8, bytes.length % 4 = 0 → P bytes
  | [], _ => nil
  | a :: b :: c :: d :: rest, h =>
    word a b c d rest (whole_induction nil word rest (by simp only [List.length_cons] at h; omega))
  | [_], h | [_, _], h | [_, _, _], h => by simp at h

/-- The bytes of the first integer come first. -/
private theorem encode_cons (v : Int) (vs : List Int) :
    encode (v :: vs) = encodeWord v ++ encode vs := rfl

/-- Every integer takes four bytes. -/
theorem length_encode (vs : List Int) : (encode vs).length = 4 * vs.length := by
  induction vs with
  | nil => rfl
  | cons v vs ih =>
    rw [encode_cons, List.length_append, ih, List.length_cons]
    show 4 + 4 * vs.length = 4 * (vs.length + 1)
    omega

/-- What was written is read as the words that it wraps to. Four bytes hold a residue, and a word
is what its residue is read as. -/
theorem decodeWords_encode (vs : List Int) : decodeWords (encode vs) = vs.map Word.wrap := by
  induction vs with
  | nil => rfl
  | cons v vs ih =>
    obtain ⟨a, b, c, d, hbytes, hword⟩ := decodeWord_encodeWord v
    rw [encode_cons, hbytes, List.map_cons, ← ih, ← hword]
    rfl

/-- What was read is written as the bytes that it was read from, so no two files of whole words are
read alike. -/
theorem encode_decodeWords {bytes : List UInt8} (h : bytes.length % 4 = 0) :
    encode (decodeWords bytes) = bytes := by
  refine whole_induction rfl (fun a b c d rest ih => ?_) bytes h
  rw [decodeWords, encode_cons, encodeWord_decodeWord, ih]
  rfl

/-- There is one word for every four bytes. -/
theorem length_decodeWords {bytes : List UInt8} (h : bytes.length % 4 = 0) :
    (decodeWords bytes).length = bytes.length / 4 := by
  have hlength := length_encode (decodeWords bytes)
  rw [encode_decodeWords h] at hlength
  omega

/-- Whole sequences are read one after the other. If the first one were not whole, its last bytes
would be read with the first ones of the second. -/
theorem decodeWords_append {bytes : List UInt8} (more : List UInt8) (h : bytes.length % 4 = 0) :
    decodeWords (bytes ++ more) = decodeWords bytes ++ decodeWords more := by
  refine whole_induction rfl (fun a b c d rest ih => ?_) bytes h
  show decodeWord a b c d :: decodeWords (rest ++ more) = _
  rw [ih]
  rfl

/-- Only words are read, whatever the bytes are, and also where some are left over at the end. -/
private theorem inRange_of_mem_decodeWords {bytes : List UInt8} :
    ∀ w ∈ decodeWords bytes, Word.InRange w := by
  fun_induction decodeWords bytes with
  | case1 a b c d rest ih =>
    intro w hw
    rcases List.mem_cons.mp hw with rfl | hrest
    · exact Word.wrap_inRange _
    · exact ih w hrest
  | case2 bytes hshort =>
    intro w hw
    cases hw

/-! ### Program files -/

/-- A length is refused exactly if it is not positive or no multiple of four. A host may ask for
any integer, so this is not about lengths of lists alone. -/
theorem checkLength_eq_error_iff {n : Int} {f : Fault} :
    checkLength n = .error f ↔ (n ≤ 0 ∨ n % 4 ≠ 0) ∧ f = .badLength n := by
  unfold checkLength
  rw [show (Word.byteCount : Int) = 4 from rfl]
  by_cases h : n ≤ 0 ∨ n % 4 ≠ 0
  · rw [if_pos h]
    constructor
    · intro hf
      cases hf
      exact ⟨h, rfl⟩
    · rintro ⟨_, rfl⟩
      rfl
  · rw [if_neg h]
    constructor
    · intro hf
      cases hf
    · rintro ⟨hn, _⟩
      exact absurd hn h

/-- Reading is refused for its length alone, so no bytes of a good length are ever wrong. The fault
names the length, zero included. -/
theorem decode_eq_error_iff {bytes : List UInt8} {f : Fault} :
    decode bytes = .error f ↔
      (bytes.length = 0 ∨ bytes.length % 4 ≠ 0) ∧ f = .badLength bytes.length := by
  have hbad : bytes.length = 0 ∨ bytes.length % 4 ≠ 0 ↔
      (bytes.length : Int) ≤ 0 ∨ (bytes.length : Int) % 4 ≠ 0 := by omega
  rw [hbad, ← checkLength_eq_error_iff]
  unfold decode
  cases checkLength bytes.length with
  | error g => simp
  | ok u => simp

/-- A file of a whole number of words, and at least one, is read. -/
theorem decode_of_whole {bytes : List UInt8} (hne : bytes.length ≠ 0)
    (h : bytes.length % 4 = 0) : decode bytes = .ok (decodeWords bytes) := by
  cases hdecode : decode bytes with
  | error f =>
    have hbad := (decode_eq_error_iff.mp hdecode).1
    omega
  | ok ws =>
    unfold decode at hdecode
    split at hdecode
    · cases hdecode
    · exact hdecode.symm

/-- The converse: what is read has such a length, and is read word by word. -/
theorem whole_of_decode {bytes : List UInt8} {ws : List Int} (h : decode bytes = .ok ws) :
    bytes.length ≠ 0 ∧ bytes.length % 4 = 0 ∧ ws = decodeWords bytes := by
  by_cases hbad : bytes.length = 0 ∨ bytes.length % 4 ≠ 0
  · rw [decode_eq_error_iff.mpr ⟨hbad, rfl⟩] at h
    cases h
  · rw [decode_of_whole (by omega) (by omega)] at h
    cases h
    exact ⟨by omega, by omega, rfl⟩

/-- Integers that were written are read as the words that they wrap to, unless there are none: a
file without words is written, but not read. -/
theorem decode_encode {vs : List Int} (h : vs ≠ []) :
    decode (encode vs) = .ok (vs.map Word.wrap) := by
  have hpos := List.length_pos_iff.mpr h
  have hlength := length_encode vs
  rw [decode_of_whole (by omega) (by omega), decodeWords_encode]

/-- Program files and sequences of words stand for each other.

- Every integer is written as four bytes, and unless there are none, the integers are read back as
  the words that they wrap to.
- Reading is refused exactly if the number of bytes is zero or no multiple of four, and for that
  number. Any other file holds one word for every four of its bytes, each in range, and these are
  written as the file.
- Two files, one after the other, hold the words of the first and then those of the second. -/
theorem encode_decode_inverse :
    (∀ vs : List Int, (encode vs).length = 4 * vs.length ∧
      (vs ≠ [] → decode (encode vs) = .ok (vs.map Word.wrap))) ∧
    (∀ bytes : List UInt8,
      (∀ f, decode bytes = .error f ↔
        (bytes.length = 0 ∨ bytes.length % 4 ≠ 0) ∧ f = .badLength bytes.length) ∧
      (bytes.length ≠ 0 → bytes.length % 4 = 0 → ∃ ws, decode bytes = .ok ws ∧
        ws.length = bytes.length / 4 ∧ (∀ w ∈ ws, Word.InRange w) ∧ encode ws = bytes)) ∧
    (∀ (bytes more : List UInt8) (ws vs : List Int), decode bytes = .ok ws →
      decode more = .ok vs → decode (bytes ++ more) = .ok (ws ++ vs)) := by
  refine ⟨fun vs => ⟨length_encode vs, decode_encode⟩, fun bytes => ⟨fun f => decode_eq_error_iff,
    fun hne h => ?_⟩, fun bytes more ws vs hbytes hmore => ?_⟩
  · exact ⟨_, decode_of_whole hne h, length_decodeWords h, inRange_of_mem_decodeWords,
      encode_decodeWords h⟩
  · obtain ⟨hne, hwhole, rfl⟩ := whole_of_decode hbytes
    obtain ⟨_, hwhole', rfl⟩ := whole_of_decode hmore
    rw [← decodeWords_append more hwhole]
    exact decode_of_whole (by rw [List.length_append]; omega) (by rw [List.length_append]; omega)

/-- The least word that an integer beyond the greatest one wraps to begins with the byte 128. A
byte more is refused, and two files are read one after the other. -/
theorem encode_decode_inverse_signs :
    encode [-1, 2147483648] = [255, 255, 255, 255, 128, 0, 0, 0] ∧
    decode (encode [-1, 2147483648]) = .ok [-1, -2147483648] ∧
    decode [0, 0, 0, 9, 1] = .error (.badLength 5) ∧
    (∃ ws, decode [0, 0, 0, 9] = .ok ws ∧ ws.length = 1 ∧ (∀ w ∈ ws, Word.InRange w) ∧
      encode ws = [0, 0, 0, 9]) ∧
    decode ([255, 255, 255, 255, 128, 0, 0, 0] ++ [0, 0, 0, 9]) = .ok [-1, -2147483648, 9] := by
  obtain ⟨hwrite, hread, hjoin⟩ := encode_decode_inverse
  have hwrap : [-1, 2147483648].map Word.wrap = [-1, -2147483648] := by decide +kernel
  have hsigns := (hwrite [-1, 2147483648]).2 (List.cons_ne_nil _ _)
  rw [hwrap] at hsigns
  have hbytes : encode [-1, 2147483648] = [255, 255, 255, 255, 128, 0, 0, 0] := by
    decide +kernel
  have hwords : decodeWords [0, 0, 0, 9] = [9] := by decide +kernel
  have hnine : decode [0, 0, 0, 9] = .ok [9] := by rw [decode_of_whole (by simp) (by simp), hwords]
  refine ⟨hbytes, hsigns, ((hread _).1 _).mpr ⟨.inr (by simp), rfl⟩,
    (hread [0, 0, 0, 9]).2 (by decide) (by decide), ?_⟩
  rw [hbytes] at hsigns
  exact hjoin _ _ _ _ hsigns hnine

end Encoding

end StackMachine
