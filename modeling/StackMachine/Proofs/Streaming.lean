import Mathlib.Control.Monad.Basic
import StackMachine.Proofs.RoundTrip

/-!
# `StackMachine.Proofs.Streaming`: programs read from one stream

A host that knows the lengths of several programs may read them from one stream, one after the
other. Some of the lengths may be ones that no program has, and the stream may end too early. Then a
read is refused, and the next one goes on from where the stream is.

The stream is described by its bytes and a position, and `Delivers` says what is relied on: asked
for `n` bytes, it gives the next `n`, or all that are left. `ByteStream.read` does so for all counts
that can index memory (`delivers_read`).

- `Reading s n r`: what comes of reading a program of `n` bytes. There are three ways.
- `SplitAt bytes results k`: the results are the words of the first `k` bytes. This holds until the
  stream ends too early.
- `Reached bytes results s`: where the results so far have left the stream. `Reached.next` is the
  step, and `reached_readMany` follows all the reads.
- `readMany_splits`: the results are the bytes that were handed out, without loss or overlap.
-/

set_option autoImplicit false

namespace StackMachine

namespace ByteStream

open Encoding (encode decodeWords readFrom)

/-- A way of asking a stream for bytes. -/
abbrev Reader := ByteStream → Int → Except Fault (List UInt8) × ByteStream

/-- Asked for `n` bytes, a stream gives the next `n`, or all that are left. -/
def Delivers (read : Reader) (n : Int) : Prop :=
  ∀ s : ByteStream, s.position ≤ s.bytes.length →
    read s n = (.ok ((s.bytes.drop s.position).take n.toNat),
      ⟨s.bytes, min (s.position + n.toNat) s.bytes.length⟩)

/-- The length of some program. -/
def IsLength (n : Int) : Prop := 0 < n ∧ n % 4 = 0

instance (n : Int) : Decidable (IsLength n) := inferInstanceAs (Decidable (0 < n ∧ n % 4 = 0))

/-- Read programs of the given lengths from a stream, one after the other, whether or not they are
refused. -/
def readMany (read : Reader) (s : ByteStream) :
    List Int → List (Except Fault (List Int)) × ByteStream
  | [] => ([], s)
  | n :: rest =>
    match readFrom read s n with
    | (result, t) =>
      match readMany read t rest with
      | (results, u) => (result :: results, u)

/-- The words of all programs that were read. -/
def wordsOf (results : List (Except Fault (List Int))) : List Int :=
  results.flatMap fun result => result.toOption.getD []

/-- The stream ended too early in one of the reads. -/
def RanShort (results : List (Except Fault (List Int))) : Prop :=
  ∃ n m, .error (.shortRead n m) ∈ results

/-- What becomes of a read from a stream that is at its end. -/
def refusal (n : Int) : Except Fault (List Int) :=
  .error (if IsLength n then .shortRead n 0 else .badLength n)

/-- A part of the bytes is as long as was asked for, or as there are bytes left. -/
private theorem length_slice (bytes : List UInt8) (k n : Nat) :
    ((bytes.drop k).take n).length = min n (bytes.length - k) := by
  rw [List.length_take, List.length_drop]

/-- A stream over bytes in memory delivers any count that can index memory. Larger counts are
refused by the memory itself. -/
theorem delivers_read {n : Int} (hpos : 0 ≤ n) (h : Index.fits n = true) : Delivers read n := by
  intro s hs
  have hend : s.position + min n.toNat (s.bytes.length - s.position)
      = min (s.position + n.toNat) s.bytes.length := by omega
  unfold read
  rw [if_pos h]
  simp only [if_neg (Int.not_lt.mpr hpos), length_slice, hend]

/-! ### One read -/

section

variable {read : Reader} {s t : ByteStream} {n : Int} {p : Except Fault (List Int) × ByteStream}

/-- What comes of reading a program of `n` bytes, and where it leaves the stream. -/
inductive Reading (s : ByteStream) (n : Int) : Except Fault (List Int) × ByteStream → Prop
  /-- No program has this length. -/
  | refused (hn : ¬ IsLength n) : Reading s n (.error (.badLength n), s)
  | read {ws : List Int} (hn : IsLength n) (hle : s.position + n.toNat ≤ s.bytes.length)
      (hdecode : Encoding.decode ((s.bytes.drop s.position).take n.toNat) = .ok ws) :
      Reading s n (.ok ws, ⟨s.bytes, s.position + n.toNat⟩)
  /-- There are not that many bytes left. -/
  | short (hn : IsLength n) (hlt : s.bytes.length < s.position + n.toNat) :
      Reading s n (.error (.shortRead n (s.bytes.length - s.position : Nat)),
        ⟨s.bytes, s.bytes.length⟩)

/-- A length that no program has is refused before the stream is asked for anything, so the stream
may be any, and its position stays. -/
theorem readFrom_of_not_isLength (hn : ¬ IsLength n) :
    readFrom read s n = (.error (.badLength n), s) := by
  have hcheck : Encoding.checkLength n = .error (.badLength n) :=
    Encoding.checkLength_eq_error_iff.mpr ⟨by unfold IsLength at hn; omega, rfl⟩
  unfold readFrom
  rw [hcheck]

/-- The length of some program passes the check. -/
private theorem checkLength_of_isLength (h : IsLength n) : Encoding.checkLength n = .ok () := by
  obtain ⟨hpos, hwhole⟩ := h
  cases hcheck : Encoding.checkLength n with
  | ok u => rfl
  | error f =>
    have hbad := (Encoding.checkLength_eq_error_iff.mp hcheck).1
    omega

/-- A read has come to one of the three. Nothing is relied on but that the stream delivers what was
asked for. -/
theorem reading_readFrom (hread : IsLength n → Delivers read n)
    (hs : s.position ≤ s.bytes.length) : Reading s n (readFrom read s n) := by
  by_cases hn : IsLength n
  · have hdelivered := hread hn s hs
    have hlength := length_slice s.bytes s.position n.toNat
    have hpos := hn.1
    have hwhole := hn.2
    unfold readFrom
    rw [checkLength_of_isLength hn, hdelivered]
    simp only [hlength]
    by_cases hle : s.position + n.toNat ≤ s.bytes.length
    · -- The bytes are there, and their number is the length of a program.
      have hall : min n.toNat (s.bytes.length - s.position) = n.toNat := by omega
      rw [hall] at hlength ⊢
      have hdecode : Encoding.decode ((s.bytes.drop s.position).take n.toNat) = .ok _ :=
        Encoding.decode_of_whole (by omega) (by omega)
      rw [if_pos (by omega), hdecode, Nat.min_eq_left hle]
      exact .read hn hle hdecode
    · have hrest : min n.toNat (s.bytes.length - s.position) = s.bytes.length - s.position := by
        omega
      rw [hrest, if_neg (by omega), Nat.min_eq_right (by omega)]
      exact .short hn (by omega)
  · rw [readFrom_of_not_isLength hn]
    exact .refused hn

/-- If there are enough bytes left, the program is read from just these. -/
private theorem Reading.of_le (h : Reading s n p) (hn : IsLength n)
    (hle : s.position + n.toNat ≤ s.bytes.length) :
    ∃ ws, Encoding.decode ((s.bytes.drop s.position).take n.toNat) = .ok ws ∧
      p = (.ok ws, ⟨s.bytes, s.position + n.toNat⟩) := by
  cases h with
  | refused hbad => exact absurd hn hbad
  | read _ _ hdecode => exact ⟨_, hdecode, rfl⟩
  | short _ hlt => omega

/-- If there are too few, the read is refused with how many there were, and nothing is left. -/
private theorem Reading.of_lt (h : Reading s n p) (hn : IsLength n)
    (hlt : s.bytes.length < s.position + n.toNat) :
    p = (.error (.shortRead n (s.bytes.length - s.position : Nat)),
      ⟨s.bytes, s.bytes.length⟩) := by
  cases h with
  | refused hbad => exact absurd hn hbad
  | read _ hle _ => omega
  | short _ _ => rfl

/-- A stream at its end refuses every read and stays there. -/
private theorem readFrom_of_position_eq (hread : IsLength n → Delivers read n)
    (hs : s.position = s.bytes.length) : readFrom read s n = (refusal n, s) := by
  unfold refusal
  by_cases hn : IsLength n
  · have hpos := hn.1
    have hshort := (reading_readFrom hread (Nat.le_of_eq hs)).of_lt hn (by omega)
    rw [hshort, if_pos hn, hs, Nat.sub_self, ← hs]
    rfl
  · rw [readFrom_of_not_isLength hn, if_neg hn]

end

/-! ### Reads one after the other -/

section

variable {read : Reader} {s t : ByteStream} {n : Int} {bytes : List UInt8}
  {results : List (Except Fault (List Int))} {result : Except Fault (List Int)}

/-- One more read goes on from where the ones before it have left the stream. It speaks of the last
read of many, where the definition begins with the first. -/
private theorem readMany_concat (s : ByteStream) (sizes : List Int) (n : Int) :
    readMany read s (sizes ++ [n]) =
      ((readMany read s sizes).1 ++ [(readFrom read (readMany read s sizes).2 n).1],
        (readFrom read (readMany read s sizes).2 n).2) := by
  induction sizes generalizing s with
  | nil => rfl
  | cons m rest ih =>
    show (_ :: (readMany read (readFrom read s m).2 (rest ++ [n])).1,
      (readMany read (readFrom read s m).2 (rest ++ [n])).2) = _
    rw [ih]
    rfl

/-- At the end of a stream, all reads are refused, each as its length demands. So once a read has
come up short, the reads behind it tell nothing new about the bytes. -/
private theorem readMany_of_position_eq (hs : s.position = s.bytes.length) {sizes : List Int}
    (hread : ∀ n ∈ sizes, IsLength n → Delivers read n) :
    readMany read s sizes = (sizes.map refusal, s) := by
  induction sizes with
  | nil => rfl
  | cons n rest ih =>
    unfold readMany
    rw [readFrom_of_position_eq (hread n List.mem_cons_self) hs]
    simp only [ih fun m hm => hread m (List.mem_cons_of_mem n hm)]
    rfl

/-- One more result adds its words, if it has any. -/
private theorem wordsOf_concat :
    wordsOf (results ++ [result]) = wordsOf results ++ result.toOption.getD [] := by
  unfold wordsOf
  rw [List.flatMap_append, List.flatMap_singleton]

/-- The stream ended too early in one more read, or in one before. A refusal for a bad length is
not meant, as it takes nothing from the stream. -/
private theorem ranShort_concat : RanShort (results ++ [result]) ↔
    RanShort results ∨ ∃ n m, result = .error (.shortRead n m) := by
  unfold RanShort
  constructor
  · rintro ⟨n, m, h⟩
    rcases List.mem_append.mp h with h | h
    · exact .inl ⟨n, m, h⟩
    · exact .inr ⟨n, m, (List.mem_singleton.mp h).symm⟩
  · rintro (⟨n, m, h⟩ | ⟨n, m, rfl⟩)
    · exact ⟨n, m, List.mem_append_left _ h⟩
    · exact ⟨n, m, List.mem_append_right _ (List.mem_singleton.mpr rfl)⟩

/-- The results are the words of the first `k` bytes. -/
structure SplitAt (bytes : List UInt8) (results : List (Except Fault (List Int))) (k : Nat) :
    Prop where
  whole : k % 4 = 0
  words : decodeWords (bytes.take k) = wordsOf results
  started : 0 < k ↔ ∃ ws, .ok ws ∈ results

/-- Where the results so far have left a stream over the given bytes. -/
structure Reached (bytes : List UInt8) (results : List (Except Fault (List Int)))
    (s : ByteStream) : Prop where
  bytes_eq : s.bytes = bytes
  le : s.position ≤ bytes.length
  ended : RanShort results → s.position = bytes.length
  split : ¬ RanShort results → SplitAt bytes results s.position

/-- Before the first read, a stream stands at its first byte, and nothing has come of it. -/
private theorem reached_ofBytes (bytes : List UInt8) : Reached bytes [] (ofBytes bytes) where
  bytes_eq := rfl
  le := Nat.zero_le _
  ended := fun ⟨_, _, h⟩ => absurd h List.not_mem_nil
  split _ := ⟨rfl, rfl, ⟨fun h => absurd h (Nat.lt_irrefl 0),
    fun ⟨_, h⟩ => absurd h List.not_mem_nil⟩⟩

/-- A refused length adds nothing. -/
private theorem SplitAt.refused {k : Nat} {f : Fault} (h : SplitAt bytes results k) :
    SplitAt bytes (results ++ [.error f]) k where
  whole := h.whole
  words := by
    rw [h.words, wordsOf_concat]
    exact (List.append_nil _).symm
  started := by
    rw [h.started]
    simp only [List.mem_append, List.mem_singleton, reduceCtorEq, or_false]

/-- A program that is read adds its words to the results and its bytes to those handed out. Both
have whole words, so they are decoded one after the other (`decodeWords_append`). -/
theorem SplitAt.taken {k n : Nat} {ws : List Int} (h : SplitAt bytes results k)
    (hle : k + n ≤ bytes.length) (hdecode : Encoding.decode ((bytes.drop k).take n) = .ok ws) :
    SplitAt bytes (results ++ [.ok ws]) (k + n) := by
  obtain ⟨hne, hwhole, rfl⟩ := Encoding.whole_of_decode hdecode
  have hslice := length_slice bytes k n
  have htake : (bytes.take k).length = k := by
    rw [List.length_take]
    omega
  have hk := h.whole
  refine ⟨by omega, ?_, ⟨fun _ => ⟨_, List.mem_append_right _ (List.mem_singleton.mpr rfl)⟩,
    fun _ => by omega⟩⟩
  rw [List.take_add, Encoding.decodeWords_append _ (by omega), h.words, wordsOf_concat]
  rfl

/-- What one read preserves: there is one case for each of the three ways in which a read can go.
-/
theorem Reached.next (h : Reached bytes results s) (hreading : Reading s n (result, t)) :
    Reached bytes (results ++ [result]) t := by
  obtain ⟨rfl, hle, hended, hsplit⟩ := h
  cases hreading with
  | refused hn =>
    have hsame : RanShort (results ++ [.error (.badLength n)]) ↔ RanShort results := by
      simp [ranShort_concat]
    exact ⟨rfl, hle, fun hshort => hended (hsame.mp hshort),
      fun hshort => (hsplit (mt hsame.mpr hshort)).refused⟩
  | read hn hbytes hdecode =>
    have hsame {ws : List Int} : RanShort (results ++ [.ok ws]) ↔ RanShort results := by
      simp [ranShort_concat]
    refine ⟨rfl, hbytes, fun hshort => ?_, fun hshort => (hsplit (mt hsame.mpr hshort)).taken
      hbytes hdecode⟩
    -- At the end of the stream there is nothing left to be read.
    have hend := hended (hsame.mp hshort)
    have hpos := hn.1
    omega
  | short hn hlt =>
    exact ⟨rfl, Nat.le_refl _, fun _ => rfl,
      fun hshort => absurd (ranShort_concat.mpr (.inr ⟨_, _, rfl⟩)) hshort⟩

/-- What all the reads preserve, by induction on their lengths. The results so far are carried
along, so that the bytes behind them are known. -/
theorem reached_readMany (h : Reached bytes results s) {sizes : List Int}
    (hread : ∀ n ∈ sizes, IsLength n → Delivers read n) :
    Reached bytes (results ++ (readMany read s sizes).1) (readMany read s sizes).2 := by
  induction sizes generalizing results s with
  | nil => simpa [readMany] using h
  | cons n rest ih =>
    have hs : s.position ≤ s.bytes.length := by
      rw [h.bytes_eq]
      exact h.le
    have hnext := h.next (reading_readFrom (hread n List.mem_cons_self) hs)
    have hrest := ih hnext fun m hm => hread m (List.mem_cons_of_mem n hm)
    rw [List.append_assoc] at hrest
    exact hrest

end

/-- Programs read from one stream are a split of its first bytes.

Let programs of the lengths `sizes` have been read, one after the other, and let `k` be the position
at which this has left the stream.

- The next read goes on from there. A length that no program has is refused, and the stream stays
  where it is. Any other length is read if there are that many bytes left: the result is the words
  of exactly these bytes, and the stream is right after them. If there are fewer, the read is
  refused with how many there were, and the stream is at its end.
- Once that has happened, there are no bytes left for any of the reads that follow.
- Until it happens, the words of all programs are those of the first `k` bytes, and are written as
  these. If there has been any program, they are read at once as one. -/
theorem readMany_splits {read : Reader} (bytes : List UInt8) {sizes : List Int}
    (hread : ∀ n ∈ sizes, IsLength n → Delivers read n) :
    let results := (readMany read (ofBytes bytes) sizes).1
    let s := (readMany read (ofBytes bytes) sizes).2
    let k := s.position
    (s.bytes = bytes ∧ k ≤ bytes.length) ∧
    (∀ n, readMany read (ofBytes bytes) (sizes ++ [n])
        = (results ++ [(readFrom read s n).1], (readFrom read s n).2) ∧
      (¬ IsLength n → readFrom read s n = (.error (.badLength n), s)) ∧
      (IsLength n → Delivers read n →
        (k + n.toNat ≤ bytes.length → ∃ ws,
          Encoding.decode ((bytes.drop k).take n.toNat) = .ok ws ∧
          readFrom read s n = (.ok ws, ⟨bytes, k + n.toNat⟩)) ∧
        (bytes.length < k + n.toNat → readFrom read s n
          = (.error (.shortRead n (bytes.length - k : Nat)), ⟨bytes, bytes.length⟩)))) ∧
    (RanShort results → k = bytes.length ∧ ∀ later,
      (∀ n ∈ later, IsLength n → Delivers read n) →
        readMany read s later = (later.map refusal, s)) ∧
    (¬ RanShort results →
      encode (wordsOf results) = bytes.take k ∧
      (∀ ws, .ok ws ∈ results → Encoding.decode (bytes.take k) = .ok (wordsOf results)) ∧
      ((∀ ws, .ok ws ∉ results) → k = 0 ∧ wordsOf results = [])) ∧
    (∀ n m, (Fault.badLength n).kind? = some .malformedEncoding ∧
      (Fault.badLength n).message = "Bad program length " ++ Numeral.decimal n ∧
      (Fault.shortRead n m).kind? = some .malformedEncoding ∧
      (Fault.shortRead n m).message
        = "Expected " ++ Numeral.decimal n ++ " bytes, read " ++ Numeral.decimal m) := by
  intro results s k
  have hreached : Reached bytes results s := reached_readMany (reached_ofBytes bytes) hread
  have hconcat (n : Int) : readMany read (ofBytes bytes) (sizes ++ [n])
      = (results ++ [(readFrom read s n).1], (readFrom read s n).2) :=
    readMany_concat (ofBytes bytes) sizes n
  clear_value results s
  obtain ⟨hbytes, hle, hended, hsplit⟩ := hreached
  refine ⟨⟨hbytes, hle⟩, fun n => ⟨hconcat n, readFrom_of_not_isLength,
    fun hn hdelivers => ?_⟩, fun hshort => ?_, fun hshort => ?_, fun n m => ⟨rfl, rfl, rfl, rfl⟩⟩
  · have hreading := reading_readFrom (s := s) (fun _ => hdelivers) (by rw [hbytes]; exact hle)
    rw [← hbytes]
    exact ⟨hreading.of_le hn, hreading.of_lt hn⟩
  · exact ⟨hended hshort, fun later hlater =>
      readMany_of_position_eq (by rw [hbytes]; exact hended hshort) hlater⟩
  · obtain ⟨hwhole, hwords, hstarted⟩ : SplitAt bytes results k := hsplit hshort
    have htake : (bytes.take k).length = k := by
      rw [List.length_take]
      omega
    refine ⟨?_, fun ws hws => ?_, fun hnone => ?_⟩
    · rw [← hwords]
      exact Encoding.encode_decodeWords (by omega)
    · have hpos := hstarted.mpr ⟨ws, hws⟩
      rw [← hwords]
      exact Encoding.decode_of_whole (by omega) (by omega)
    · have hzero : k = 0 := by
        refine Nat.eq_zero_of_not_pos fun hpos => ?_
        obtain ⟨ws, hws⟩ := hstarted.mp hpos
        exact hnone ws hws
      exact ⟨hzero, by rw [← hwords, hzero]; rfl⟩

/-- Two programs of one word each are read from ten bytes, between lengths that no program has. Two
bytes are left, and after a read that asks for more there are none. -/
theorem readMany_splits_twoWords :
    let bytes : List UInt8 := [0, 0, 0, 9, 255, 255, 255, 255, 0, 0]
    let r := readMany read (ofBytes bytes) [0, 4, -8, 3, 4]
    r = ([.error (.badLength 0), .ok [9], .error (.badLength (-8)), .error (.badLength 3),
      .ok [-1]], ⟨bytes, 8⟩) ∧
    encode (wordsOf r.1) = bytes.take r.2.position ∧
    Encoding.decode (bytes.take r.2.position) = .ok (wordsOf r.1) ∧
    readFrom read r.2 6 = (.error (.badLength 6), r.2) ∧
    readFrom read r.2 8 = (.error (.shortRead 8 2), ⟨bytes, 10⟩) ∧
    readMany read (readMany read (ofBytes bytes) [4, 8]).2 [4, 0]
      = ([.error (.shortRead 4 0), .error (.badLength 0)], ⟨bytes, 10⟩) := by
  intro bytes r
  have hdelivers (n : Int) (hn : n ∈ [0, 4, -8, 3, 8]) (hlength : IsLength n) : Delivers read n :=
    delivers_read (Int.le_of_lt hlength.1) (by revert n; decide +kernel)
  have hr : r = ([.error (.badLength 0), .ok [9], .error (.badLength (-8)), .error (.badLength 3),
      .ok [-1]], ⟨bytes, 8⟩) := by decide +kernel
  have hshort : readMany read (ofBytes bytes) [4, 8]
      = ([.ok [9], .error (.shortRead 8 6)], ⟨bytes, 10⟩) := by decide +kernel
  obtain ⟨_, hnext, _, hsplit, _⟩ := readMany_splits bytes
    fun n (hn : n ∈ [0, 4, -8, 3, 4]) => hdelivers n (by simp at hn ⊢; omega)
  obtain ⟨_, _, hended, _⟩ := readMany_splits bytes
    fun n (hn : n ∈ [4, 8]) => hdelivers n (by simp at hn ⊢; omega)
  have hposition : r.2.position = 8 := by rw [hr]
  have hmany := hsplit (by show ¬ RanShort r.1; rw [hr]; simp [RanShort])
  have hends : readFrom read r.2 8 = (.error (.shortRead 8 (bytes.length - r.2.position : Nat)),
      ⟨bytes, bytes.length⟩) :=
    ((hnext 8).2.2 (by decide) (hdelivers 8 (by decide) (by decide))).2
      (by show bytes.length < r.2.position + 8; rw [hposition]; decide)
  have hlater := (hended ⟨8, 6, by rw [hshort]; simp⟩).2 [4, 0]
    fun n hn => hdelivers n (by simp at hn ⊢; omega)
  rw [hposition] at hends
  rw [hshort] at hlater
  refine ⟨hr, hmany.1, hmany.2.1 [9] (by show _ ∈ r.1; rw [hr]; simp), (hnext 6).2.1 (by decide),
    hends, ?_⟩
  rw [hshort]
  exact hlater

end ByteStream

end StackMachine
