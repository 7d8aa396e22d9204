import StackMachine.Fault
import StackMachine.Word

/-!
# `StackMachine.Encoding`: programs as bytes

A program file is its words, four bytes each, most significant byte first and in two's
complement. There is nothing else in the file, so its length is a positive multiple of four.

- `encode` wraps integers and writes them as bytes.
- `decode` reads the words back, and refuses other lengths.
- `readFrom` reads a program of a known length from any kind of stream.
- `ByteStream` is a stream of bytes with a position; `ByteStream.readProgram` reads a program
  from it.
-/

set_option autoImplicit false

namespace StackMachine

namespace Encoding

/-- The four bytes of the word to which an integer wraps. -/
def encodeWord (v : Int) : List UInt8 :=
  let n := (v % Word.modulus).toNat
  [UInt8.ofNat (n / 256 / 256 / 256), UInt8.ofNat (n / 256 / 256), UInt8.ofNat (n / 256),
    UInt8.ofNat n]

/-- The word that four bytes stand for. -/
def decodeWord (a b c d : UInt8) : Int :=
  Word.wrap (((a.toNat * 256 + b.toNat) * 256 + c.toNat) * 256 + d.toNat : Nat)

/-- The bytes of a sequence of integers. -/
def encode (vs : List Int) : List UInt8 := vs.flatMap encodeWord

/-- The words in a sequence of bytes. Bytes that do not fill a word are left out. -/
def decodeWords : List UInt8 → List Int
  | a :: b :: c :: d :: rest => decodeWord a b c d :: decodeWords rest
  | _ => []

/-- Only a positive multiple of the word size is the length of a program. -/
def checkLength (size : Int) : Except Fault Unit :=
  if size ≤ 0 ∨ size % Word.byteCount ≠ 0 then .error (.badLength size) else .ok ()

/-- The words of a program file. -/
def decode (bytes : List UInt8) : Except Fault (List Int) :=
  match checkLength bytes.length with
  | .error f => .error f
  | .ok () => .ok (decodeWords bytes)

/-- A program of `size` bytes from a stream, given how bytes are asked from the stream. A length
that no program has is refused before anything is read. -/
def readFrom {σ : Type} (read : σ → Int → Except Fault (List UInt8) × σ) (s : σ) (size : Int) :
    Except Fault (List Int) × σ :=
  match checkLength size with
  | .error f => (.error f, s)
  | .ok () =>
    match read s size with
    | (.error f, rest) => (.error f, rest)
    | (.ok chunk, rest) =>
      if chunk.length = size then (decode chunk, rest)
      else (.error (.shortRead size chunk.length), rest)

end Encoding

/-- A stream over given bytes. -/
structure ByteStream where
  bytes : List UInt8
  position : Nat
  deriving DecidableEq, Repr

namespace ByteStream

/-- A stream at its beginning. -/
def ofBytes (bytes : List UInt8) : ByteStream := ⟨bytes, 0⟩

/-- The next `n` bytes, or all that are left if there are fewer or `n` is negative, and the stream
after them. A count that cannot index memory is refused. -/
def read (s : ByteStream) (n : Int) : Except Fault (List UInt8) × ByteStream :=
  if Index.fits n then
    let left := s.bytes.drop s.position
    let chunk := if n < 0 then left else left.take n.toNat
    (.ok chunk, { s with position := s.position + chunk.length })
  else (.error .countTooLarge, s)

/-- A program of `size` bytes from the stream. -/
def readProgram (s : ByteStream) (size : Int) : Except Fault (List Int) × ByteStream :=
  Encoding.readFrom read s size

end ByteStream

end StackMachine
