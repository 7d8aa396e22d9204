import Mathlib.Tactic.TFAE
import StackMachine.Proofs.Addresses
import StackMachine.Proofs.RoundTrip
import StackMachine.Proofs.Wrapping

/-!
# `StackMachine.Proofs.Congruence`: which integers make the same program

Integers become words wherever a program is made, written to bytes, or read back. All these places
keep the residues of the integers modulo the number of words, and nothing else. So two lists of
integers that are congruent place by place make one program, whichever way they take, and a host
that drives an engine cannot tell which of the two it has loaded. Lists that are not congruent can
be told apart in each of these ways.

- `Word.map_wrap_eq_iff`: wrapping is a complete invariant of congruence place by place.
- `Program.eq_iff_of_ofInts` and `Encoding.encode_eq_encode_iff`: programs and files are equal
  exactly if the wrapped lists are.
- `session_load`: lists that make the same program are answered alike. `answers_probe` is the
  converse: a host that fetches at every address sees the wrapped list.
- `tfae_sameProgram` puts these together.
-/

set_option autoImplicit false

namespace StackMachine

namespace Word

/-- Two lists of integers are as long as each other, and congruent place by place. -/
structure AllCongruent (a b : List Int) : Prop where
  length : a.length = b.length
  congruent : ∀ (i : Nat) (u v : Int), a[i]? = some u → b[i]? = some v → Congruent u v

/-- Wrapping is a complete invariant: lists wrap to the same words exactly if they are congruent
place by place. -/
theorem map_wrap_eq_iff {a b : List Int} : a.map wrap = b.map wrap ↔ AllCongruent a b := by
  constructor
  · intro h
    have hlength := congrArg List.length h
    rw [List.length_map, List.length_map] at hlength
    refine ⟨hlength, fun i u v hu hv => ?_⟩
    have hplace : (a.map wrap)[i]? = (b.map wrap)[i]? := by rw [h]
    rw [List.getElem?_map, List.getElem?_map, hu, hv] at hplace
    exact wrap_eq_wrap_iff.mp (Option.some.inj hplace)
  · intro h
    refine List.ext_getElem? fun i => ?_
    rw [List.getElem?_map, List.getElem?_map]
    by_cases hi : i < a.length
    · -- Both lists have an integer here.
      have ha := List.getElem?_eq_getElem hi
      have hb := List.getElem?_eq_getElem (h.length ▸ hi)
      rw [ha, hb, Option.map_some, Option.map_some,
        wrap_eq_wrap_iff.mpr (h.congruent i _ _ ha hb)]
    · have hlength := h.length
      rw [List.getElem?_eq_none (by omega), List.getElem?_eq_none (by omega)]

end Word

/-- Programs are equal if they have the same words in the same order. -/
private theorem Program.eq_iff_toList {p q : Program} : p = q ↔ p.toList = q.toList := by
  constructor
  · rintro rfl
    rfl
  · intro h
    exact Program.ext (Array.toList_inj.mp h)

/-- Programs are equal exactly if the lists that they are made of wrap to the same words. Nothing
else of the integers is left in a program. -/
private theorem Program.eq_iff_of_ofInts {a b : List Int} {p q : Program} (hp : ofInts a = .ok p)
    (hq : ofInts b = .ok q) : p = q ↔ a.map Word.wrap = b.map Word.wrap := by
  rw [eq_iff_toList, toList_of_ofInts hp, toList_of_ofInts hq]

/-- The comparison of a program with integers is about the words as they are, without wrapping. -/
private theorem Program.sameWords_iff {p : Program} {vs : List Int} :
    p.sameWords vs = true ↔ p.toList = vs := beq_iff_eq

namespace Encoding

/-- Integers are written as the words that they wrap to. So the bytes of integers, like their
program, tell no more than their words. -/
private theorem encode_map_wrap (vs : List Int) : encode (vs.map Word.wrap) = encode vs := by
  have hwhole : (encode vs).length % 4 = 0 := by
    rw [length_encode]
    omega
  rw [← decodeWords_encode, encode_decodeWords hwhole]

/-- Files are equal exactly if the lists that they were written from wrap to the same words: what
was written is read back as just these. -/
theorem encode_eq_encode_iff {a b : List Int} :
    encode a = encode b ↔ a.map Word.wrap = b.map Word.wrap := by
  constructor
  · intro h
    rw [← decodeWords_encode a, h, decodeWords_encode]
  · intro h
    rw [← encode_map_wrap a, h, encode_map_wrap]

end Encoding

namespace Engine

variable {a b : List Int} {p : Program}

/-- Once a program is loaded, it does not matter which integers it was made of, nor which program
was there before, nor which number of words was noted for that. -/
theorem session_load (ha : Program.ofInts a = .ok p) (hb : Program.ofInts b = .ok p) (e : Engine)
    (program : Option Program) (size : Nat) (cs : List Command) :
    session e (.load a :: cs) = session { e with program, size } (.load b :: cs) := by
  simp only [session, obey_load ha, obey_load hb]
  rfl

/-- A host that loads integers and fetches at a place sees the word there, or that there is none.
-/
theorem answers_probe (hp : Program.ofInts a = .ok p) (e : Engine) (i : Nat) :
    (session e [.load a, .setPc i, .fetch]).1 = [.ok .done, .ok .done,
      match (a.map Word.wrap)[i]? with
      | some w => .ok (.value w)
      | none => .error (.outOfBounds i)] := by
  let s : Engine := { e.withProgram p with pc := i }
  have hholds : Holds a s := (holds_of_ofInts hp e).congr rfl rfl
  have hanswers : (session e [.load a, .setPc i, .fetch]).1
      = [.ok .done, .ok .done, (ask fetch .value s).1] := by
    simp only [session, obey_load hp]
    rfl
  have hword : s.word? s.pc = (a.map Word.wrap)[i]? := by
    rw [List.getElem?_map]
    exact hholds.word? i
  rw [hanswers]
  cases hget : (a.map Word.wrap)[i]? with
  | some w =>
    rw [hget] at hword
    simp only [ask, fetch_of_word hword]
  | none =>
    rw [hget] at hword
    have hcause : s.absence s.pc = .outOfBounds i := (hholds.sized.absence hword).1
    simp only [ask, fetch_of_none hword, hcause]

/-- So a host that gets the same answers for both lists, wherever it fetches, has loaded the same
words. -/
private theorem map_wrap_eq_of_answers {q : Program} (ha : Program.ofInts a = .ok p)
    (hb : Program.ofInts b = .ok q) {e : Engine}
    (h : ∀ cs, (session e (.load a :: cs)).1 = (session e (.load b :: cs)).1) :
    a.map Word.wrap = b.map Word.wrap := by
  refine List.ext_getElem? fun i => ?_
  have hprobe := h [.setPc i, .fetch]
  rw [answers_probe ha, answers_probe hb] at hprobe
  have hlast := (List.cons.inj (List.cons.inj (List.cons.inj hprobe).2).2).1
  -- A value tells the word, and a refusal tells that there is none.
  cases hleft : (a.map Word.wrap)[i]? with
  | some w =>
    cases hright : (b.map Word.wrap)[i]? with
    | some v =>
      rw [hleft, hright] at hlast
      cases hlast
      rfl
    | none =>
      rw [hleft, hright] at hlast
      cases hlast
  | none =>
    cases hright : (b.map Word.wrap)[i]? with
    | some v =>
      rw [hleft, hright] at hlast
      cases hlast
    | none => rfl

/-- A program is its integers up to congruence, on every way that leads to it. For two lists of
integers that are not empty, and the programs that they make, these are equivalent:

- the programs are equal;
- the integers are written as the same bytes;
- the lists are as long as each other and congruent place by place, modulo the number of words;
- the program of the first list has exactly the words that the second one wraps to;
- in two engines that differ in nothing but the programs they had before, and the numbers that were
  noted for these, loading one list or the other and then obeying any commands gives the same
  answers and leaves the same engine, with its output and its trace;
- in some engine, loading one list or the other gives the same answers to all commands.

And the bytes of a list are read back as integers that make its program. -/
theorem tfae_sameProgram (ha : a ≠ []) (hb : b ≠ []) : ∃ p q,
    Program.ofInts a = .ok p ∧ Program.ofInts b = .ok q ∧
    List.TFAE [
      p = q,
      Encoding.encode a = Encoding.encode b,
      Word.AllCongruent a b,
      p.sameWords (b.map Word.wrap) = true,
      ∀ (e : Engine) (program : Option Program) (size : Nat) (cs : List Command),
        session e (.load a :: cs) = session { e with program, size } (.load b :: cs),
      ∃ e : Engine, ∀ cs : List Command,
        (session e (.load a :: cs)).1 = (session e (.load b :: cs)).1] ∧
    ∃ ws, Encoding.decode (Encoding.encode a) = .ok ws ∧ Program.ofInts ws = .ok p := by
  obtain ⟨p, hp⟩ := Program.exists_ofInts ha
  obtain ⟨q, hq⟩ := Program.exists_ofInts hb
  refine ⟨p, q, hp, hq, ?_, _, Encoding.decode_encode ha, ?_⟩
  · tfae_have 1 ↔ 2 := by
      rw [Program.eq_iff_of_ofInts hp hq, Encoding.encode_eq_encode_iff]
    tfae_have 2 ↔ 3 := by
      rw [Encoding.encode_eq_encode_iff, Word.map_wrap_eq_iff]
    tfae_have 3 ↔ 4 := by
      rw [← Word.map_wrap_eq_iff, Program.sameWords_iff, Program.toList_of_ofInts hp]
    tfae_have 1 → 5 := by
      rintro rfl
      exact session_load hp hq
    tfae_have 5 → 6 := by
      intro h
      let e := ofStacks Sink.unlimited ⟨false, Sink.unlimited⟩ (Stack.empty 0) (Stack.empty 0)
      exact ⟨e, fun cs => congrArg Prod.fst (h e e.program e.size cs)⟩
    tfae_have 6 → 3 := by
      rintro ⟨e, h⟩
      exact Word.map_wrap_eq_iff.mp (map_wrap_eq_of_answers hp hq h)
    tfae_finish
  · rw [Program.ofInts_map_wrap, hp]

/-- A push of minus one, written with integers that are words and with others that are not. -/
theorem tfae_sameProgram_pushMinusOne : ∃ p q,
    Program.ofInts [4294967299, -1] = .ok p ∧ Program.ofInts [3, 4294967295] = .ok q ∧ p = q ∧
    Encoding.encode [4294967299, -1] = Encoding.encode [3, 4294967295] ∧
    p.sameWords [3, -1] = true ∧
    (∀ cs, session (callLetter true) (.load [4294967299, -1] :: cs)
      = session { callLetter true with program := none, size := 0 }
          (.load [3, 4294967295] :: cs)) ∧
    ∃ ws, Encoding.decode (Encoding.encode [4294967299, -1]) = .ok ws ∧
      Program.ofInts ws = .ok p := by
  obtain ⟨p, q, hp, hq, htfae, hread⟩ := tfae_sameProgram (a := [4294967299, -1])
    (b := [3, 4294967295]) (List.cons_ne_nil _ _) (List.cons_ne_nil _ _)
  have hbytes : Encoding.encode [4294967299, -1] = Encoding.encode [3, 4294967295] := by
    decide +kernel
  have hsame : p = q := (htfae.out 0 1).mpr hbytes
  have hwords : p.sameWords ([3, 4294967295].map Word.wrap) = true := (htfae.out 0 3).mp hsame
  have hwrapped : [3, 4294967295].map Word.wrap = [3, -1] := by decide +kernel
  rw [hwrapped] at hwords
  have hsession : ∀ (e : Engine) (program : Option Program) (size : Nat) (cs : List Command),
      session e (.load [4294967299, -1] :: cs)
        = session { e with program, size } (.load [3, 4294967295] :: cs) :=
    (htfae.out 0 4).mp hsame
  exact ⟨p, q, hp, hq, hsame, hbytes, hwords, hsession (callLetter true) none 0, hread⟩

end Engine

end StackMachine
