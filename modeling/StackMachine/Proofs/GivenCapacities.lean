import StackMachine.CommandLine.Parse
import StackMachine.Proofs.Diagnostics

/-!
# `StackMachine.Proofs.GivenCapacities`: which capacities a command line can set

An option with a value can be spelled in many ways: with one dash or two, abbreviated, behind
flags in one argument, with its value attached or in the next argument, and more than once.
`valuesGiven` reads off the classified arguments which values they give to which options, and
`setting_of_scanned` says that no other text has a part in what is stored.

- `Scanned` is the inversion of `scan`: what a scan that succeeds has done with each argument.
- `nonneg_of_stored`: a stored value that was converted is not negative.
- `misuse_of_launchFor`: what a launch with complete settings can be misused by.
- `capacities_of_parse` puts these together: no negative capacity gets from the arguments to a
  stack.

A value is stored as it was converted, with one exception: the separator, attached to an option,
leaves it `blank`. `ConvertsValues` says of a command line that this does not happen in it.
-/

set_option autoImplicit false

namespace StackMachine

namespace CommandLine

/-! ### Values and settings -/

/-- The value of the last option in an argument, which is attached to it or is the argument
behind it. -/
def Cluster.given (k : Cluster) : List Argument → Option String
  | .positional text :: _ => if k.last.takesValue then some (k.value.getD text) else k.value
  | _ => k.value

/-- The values that arguments give to options, in order. -/
def valuesGiven : List Argument → List (Opt × String)
  | [] => []
  | .option o style attached :: rest =>
    match Cluster.ofArgument o style attached with
    | .error _ => valuesGiven rest
    | .ok k => ((k.given rest).map (k.last, ·)).toList ++ valuesGiven rest
  | _ :: rest => valuesGiven rest

/-- Every value on a command line is converted, and what is stored is the result. -/
def ConvertsValues (args : List String) : Prop :=
  ∀ as, classifyAll args = .ok as → ∀ x ∈ valuesGiven as,
    Progress.capacity x.2 = (Capacity.ofText x.2).map .slots

/-- The capacity that was set by an option. Flags set none. -/
def Progress.setting (p : Progress) : Opt → CapacitySetting
  | .stackSize => p.stackSize
  | .returnStackSize => p.returnStackSize
  | .help | .debug | .version => .standard

/-- A capacity is stored for an option: the one that it has unless the arguments say otherwise, or
one that stands for a value given to the option. -/
def Stored (as : List Argument) (o : Opt) (c : CapacitySetting) : Prop :=
  c = .standard ∨ ∃ text, (o, text) ∈ valuesGiven as ∧ Progress.capacity text = .ok c

/-- What a scan that succeeds has done with each argument. -/
inductive Scanned : List Argument → Progress → Progress → Prop
  | nil (p : Progress) : Scanned [] p p
  | positional {text : String} {rest : List Argument} {p q : Progress}
      (hrest : Scanned rest (p.positional text) q) : Scanned (.positional text :: rest) p q
  | unknown {text : String} {rest : List Argument} {p q : Progress}
      (hrest : Scanned rest (p.leftOver text) q) : Scanned (.unknown text :: rest) p q
  | separator {rest : List Argument} {p q : Progress}
      (hrest : Scanned rest p.separator q) : Scanned (.separator :: rest) p q
  /-- Options of which the last has its value attached. -/
  | attached {o : Opt} {style : Opt.Style} {att : Option String} {k : Cluster} {text : String}
      {rest : List Argument} {p u v q : Progress} (hk : Cluster.ofArgument o style att = .ok k)
      (hvalue : k.value = some text)
      (hflags : Progress.flags { p with justNamed := false } k.flags = .ok u)
      (hset : u.value k.last text = .ok v) (hrest : Scanned rest v q) :
      Scanned (.option o style att :: rest) p q
  /-- Options of which the last takes the next argument for its value. -/
  | next {o : Opt} {style : Opt.Style} {att : Option String} {k : Cluster} {text : String}
      {rest : List Argument} {p u v q : Progress} (hk : Cluster.ofArgument o style att = .ok k)
      (hvalue : k.value = none) (htakes : k.last.takesValue = true)
      (hflags : Progress.flags { p with justNamed := false } k.flags = .ok u)
      (hset : u.value k.last text = .ok v) (hrest : Scanned rest v q) :
      Scanned (.option o style att :: .positional text :: rest) p q
  /-- Flags alone. -/
  | flags {o : Opt} {style : Opt.Style} {att : Option String} {k : Cluster}
      {rest : List Argument} {p u q : Progress} (hk : Cluster.ofArgument o style att = .ok k)
      (hvalue : k.value = none) (htakes : ¬ k.last.takesValue = true)
      (hflags : Progress.flags { p with justNamed := false } (k.flags ++ [k.last]) = .ok u)
      (hrest : Scanned rest u q) : Scanned (.option o style att :: rest) p q

section

variable {p q : Progress} {as : List Argument} {o : Opt}

/-- A scan that succeeds has done these things. What is stored by it is then found by induction on
`Scanned`, without the refusals. -/
theorem scanned_of_ok (h : scan p as = .ok q) : Scanned as p q := by
  fun_induction scan p as with
  | case1 p =>
    cases h
    exact .nil q
  | case2 p text rest ih => exact .positional (ih h)
  | case3 p text rest ih => exact .unknown (ih h)
  | case4 p rest ih => exact .separator (ih h)
  | case8 p o style att rest k hk _ text hvalue u hflags v hset ih =>
    exact .attached hk hvalue hflags hset (ih h)
  | case11 p o style att k hk _ hvalue htakes text rest u hflags v hset ih =>
    exact .next hk hvalue htakes hflags hset (ih h)
  | case14 p o style att rest k hk _ hvalue htakes u hflags ih =>
    exact .flags hk hvalue htakes hflags (ih h)
  -- In all others a problem has ended the scan.
  | case5 | case6 | case7 | case9 | case10 | case12 | case13 => cases h

/-! ### What sets a capacity -/

/-- A positional argument sets no capacity. -/
private theorem setting_positional (p : Progress) (text : String) (o : Opt) :
    (p.positional text).setting o = p.setting o := by
  unfold Progress.positional
  cases p.filename <;> cases o <;> rfl

/-- Nor does a separator. -/
private theorem setting_separator (p : Progress) (o : Opt) :
    p.separator.setting o = p.setting o := by
  unfold Progress.separator
  split <;> cases o <;> rfl

/-- A flag sets no capacity. -/
private theorem setting_of_flag {f : Opt} (h : p.flag f = .ok q) : q.setting o = p.setting o := by
  cases f with
  | help | version => cases h
  | debug | stackSize | returnStackSize =>
    cases h
    cases o <;> rfl

/-- Nor do several flags in one argument. -/
private theorem setting_of_flags {fs : List Opt} (h : p.flags fs = .ok q) :
    q.setting o = p.setting o := by
  induction fs generalizing p with
  | nil =>
    cases h
    rfl
  | cons f rest ih =>
    unfold Progress.flags at h
    cases hflag : p.flag f with
    | error e =>
      rw [hflag] at h
      cases h
    | ok u =>
      rw [hflag] at h
      rw [ih h, setting_of_flag hflag]

/-- A value is stored for the option that it was given to, and the other option keeps its own. This
is the one step in which a capacity is set. -/
private theorem setting_of_value {f : Opt} {text : String} (h : p.value f text = .ok q) :
    q.setting o = p.setting o ∨ f = o ∧ Progress.capacity text = .ok (q.setting o) := by
  unfold Progress.value at h
  split at h
  · cases h
  · rename_i c hc
    cases f with
    | stackSize =>
      cases h
      cases o with
      | stackSize => exact .inr ⟨rfl, hc⟩
      | returnStackSize | help | debug | version => exact .inl rfl
    | returnStackSize =>
      cases h
      cases o with
      | returnStackSize => exact .inr ⟨rfl, hc⟩
      | stackSize | help | debug | version => exact .inl rfl
    | help | debug | version =>
      cases h
      exact .inl rfl

/-- A value that was attached is given, be it to an option of its own or to the last one of a
cluster. -/
private theorem mem_valuesGiven_of_value {style : Opt.Style} {att : Option String} {k : Cluster}
    {text : String} (hk : Cluster.ofArgument o style att = .ok k) (hvalue : k.value = some text)
    (rest : List Argument) : (k.last, text) ∈ valuesGiven (.option o style att :: rest) := by
  have hgiven : k.given rest = some text := by
    unfold Cluster.given
    split
    · split
      · rw [hvalue]
        rfl
      · exact hvalue
    · exact hvalue
  simp only [valuesGiven, hk, hgiven, Option.map_some, Option.toList_some]
  exact List.mem_cons_self

/-- What later arguments give is given by all. -/
private theorem valuesGiven_subset (a : Argument) (rest : List Argument) :
    valuesGiven rest ⊆ valuesGiven (a :: rest) := by
  cases a with
  | positional _ | unknown _ | separator => exact List.Subset.refl _
  | option o style att =>
    simp only [valuesGiven]
    split
    · exact List.Subset.refl _
    · exact List.subset_append_right _ _

/-- The value in the next argument is given as well, if the option takes one. A flag would leave
that argument to be the file name. -/
private theorem mem_valuesGiven_of_next {style : Opt.Style} {att : Option String} {k : Cluster}
    (hk : Cluster.ofArgument o style att = .ok k) (hvalue : k.value = none)
    (htakes : k.last.takesValue = true) (text : String) (rest : List Argument) :
    (k.last, text) ∈ valuesGiven (.option o style att :: .positional text :: rest) := by
  have hgiven : k.given (.positional text :: rest) = some text := by
    show (if k.last.takesValue then some (k.value.getD text) else k.value) = some text
    rw [if_pos htakes, hvalue]
    rfl
  simp only [valuesGiven, hk, hgiven, Option.map_some, Option.toList_some]
  exact List.mem_cons_self

/-- Between `p` and `q`, the capacity of the option `o` stays, or is set to one that stands for a
value which the arguments give to `o`. -/
def SetsAtMost (as : List Argument) (o : Opt) (p q : Progress) : Prop :=
  q.setting o = p.setting o ∨
    ∃ text, (o, text) ∈ valuesGiven as ∧ Progress.capacity text = .ok (q.setting o)

/-- What later arguments set is set by all of them, if the ones before set nothing. -/
private theorem SetsAtMost.weaken {bs : List Argument} {u : Progress} (h : SetsAtMost as o u q)
    (hsame : u.setting o = p.setting o) (hsub : valuesGiven as ⊆ valuesGiven bs) :
    SetsAtMost bs o p q := by
  rcases h with hq | ⟨text, hgiven, hc⟩
  · exact .inl (hq.trans hsame)
  · exact .inr ⟨text, hsub hgiven, hc⟩

/-- The first option may set its capacity, and later arguments may set it anew. Either way the
capacity is one of those that were given. -/
private theorem SetsAtMost.of_value {bs : List Argument} {u v : Progress} {f : Opt} {text : String}
    (h : SetsAtMost as o v q) (hset : u.value f text = .ok v) (hsame : u.setting o = p.setting o)
    (hgiven : (f, text) ∈ valuesGiven bs) (hsub : valuesGiven as ⊆ valuesGiven bs) :
    SetsAtMost bs o p q := by
  rcases setting_of_value (o := o) hset with hv | ⟨rfl, hc⟩
  · exact h.weaken (hv.trans hsame) hsub
  · rcases h with hq | hlater
    · exact .inr ⟨text, hgiven, by rw [hq]; exact hc⟩
    · obtain ⟨later, hmem, hc⟩ := hlater
      exact .inr ⟨later, hsub hmem, hc⟩

/-- A scan sets a capacity at most to one that stands for a value which the arguments give to the
option. -/
theorem setting_of_scanned (h : Scanned as p q) (o : Opt) : SetsAtMost as o p q := by
  -- Flags, and what is noted about the file name, set none.
  have hflags {p u : Progress} {fs : List Opt}
      (h : Progress.flags { p with justNamed := false } fs = .ok u) :
      u.setting o = p.setting o := by
    rw [setting_of_flags h]
    cases o <;> rfl
  induction h with
  | nil p => exact .inl rfl
  | positional _ ih => exact ih.weaken (setting_positional _ _ o) (valuesGiven_subset _ _)
  | @unknown text rest p q _ ih =>
    have hsame : (p.leftOver text).setting o = p.setting o := by cases o <;> rfl
    exact ih.weaken hsame (valuesGiven_subset _ _)
  | separator _ ih => exact ih.weaken (setting_separator _ o) (valuesGiven_subset _ _)
  | attached hk hvalue hfs hset _ ih =>
    exact ih.of_value hset (hflags hfs) (mem_valuesGiven_of_value hk hvalue _)
      (valuesGiven_subset _ _)
  | @next f style att k text rest _ _ _ _ hk hvalue htakes hfs hset _ ih =>
    -- The argument that is the value gives none itself.
    have hsub : valuesGiven rest ⊆ valuesGiven (.option f style att :: .positional text :: rest) :=
      valuesGiven_subset (.option f style att) (.positional text :: rest)
    exact ih.of_value hset (hflags hfs) (mem_valuesGiven_of_next hk hvalue htakes _ _) hsub
  | flags _ _ _ hfs _ ih => exact ih.weaken (hflags hfs) (valuesGiven_subset _ _)

end

/-! ### What parsing stores -/

section

variable {args : List String} {s : Settings}

/-- Parsing stores for each option the capacity that it has unless the arguments say otherwise, or
one that stands for a value given to it. -/
theorem stored_of_parse (h : parse args = .ok s) : ∃ as, classifyAll args = .ok as ∧
    Stored as .stackSize s.stackSize ∧ Stored as .returnStackSize s.returnStackSize := by
  unfold parse at h
  split at h
  · cases h
  · rename_i as has
    split at h
    · cases h
    · rename_i p hscan
      have hsets := setting_of_scanned (scanned_of_ok hscan)
      unfold Progress.finish at h
      split at h
      · cases h
      · split at h
        · cases h
          exact ⟨as, has, hsets .stackSize, hsets .returnStackSize⟩
        · cases h

/-- A text is converted to a number of slots, or is the separator, which is no value. The second
case is a quirk of the parser, and `ConvertsValues` excludes it. -/
private theorem capacity_eq_ok {text : String} {c : CapacitySetting}
    (h : Progress.capacity text = .ok c) :
    (text = "--" ∧ c = .blank) ∨ ∃ n, Capacity.ofText text = .ok n ∧ c = .slots n := by
  unfold Progress.capacity at h
  split at h
  · rename_i htext
    cases h
    exact .inl ⟨htext, rfl⟩
  · cases hn : Capacity.ofText text with
    | error e =>
      rw [hn] at h
      cases h
    | ok n =>
      rw [hn] at h
      cases h
      exact .inr ⟨n, rfl, rfl⟩

/-- Every text but the separator is converted. So `ConvertsValues` comes down to which texts are
given as values. -/
theorem converted_iff {text : String} :
    Progress.capacity text = (Capacity.ofText text).map .slots ↔ text ≠ "--" := by
  constructor
  · rintro h rfl
    have hseparator : Capacity.ofText "--" = .error .notNumeral := rfl
    rw [hseparator] at h
    cases h
  · intro htext
    exact if_neg htext

/-- No negative capacity is stored, since conversion refuses negative numerals. The separator has
no say here: it does not stand for a number. -/
theorem nonneg_of_stored {as : List Argument} {o : Opt} {n : Int} (h : Stored as o (.slots n)) :
    0 ≤ n := by
  rcases h with hstandard | ⟨text, _, hc⟩
  · cases hstandard
  · rcases capacity_eq_ok hc with ⟨_, hblank⟩ | ⟨m, hm, heq⟩
    · cases hblank
    · cases heq
      exact Capacity.nonneg_of_ofTextWithin hm

/-- Where all values are converted, what is stored for an option is a capacity that was read, or
nothing. A negative one has been refused by the reader before it could be stored. -/
theorem stored_cases {as : List Argument} {o : Opt} {c : CapacitySetting} (h : Stored as o c)
    (has : classifyAll args = .ok as) (hconverts : ConvertsValues args) :
    c = .standard ∨ ∃ n, 0 ≤ n ∧ c = .slots n := by
  rcases h with hstandard | ⟨text, hgiven, hc⟩
  · exact .inl hstandard
  · have hconverted : Progress.capacity text = (Capacity.ofText text).map .slots :=
      hconverts as has (o, text) hgiven
    rw [hconverted] at hc
    cases hn : Capacity.ofText text with
    | error e =>
      rw [hn] at hc
      cases hc
    | ok n =>
      rw [hn] at hc
      cases hc
      exact .inr ⟨n, Capacity.nonneg_of_ofTextWithin hn, rfl⟩

end

end CommandLine

namespace Launch

variable {memory : Memory}

/-- An engine is not built for want of a stack: of its parts, the two stacks alone may be refused.
-/
private theorem stackOf_of_build_error {c d : CapacitySetting} {debug : Bool} {m : Misuse}
    (h : build c d debug memory = .error m) :
    stackOf memory c = .error m ∨ stackOf memory d = .error m := by
  unfold build at h
  cases hc : stackOf memory c with
  | error l =>
    rw [hc] at h
    cases h
    exact .inl rfl
  | ok operands =>
    cases hd : stackOf memory d with
    | error l =>
      rw [hc, hd] at h
      cases h
      exact .inr rfl
    | ok returns =>
      rw [hc, hd] at h
      cases h

/-- A run leads to an exit status. -/
private theorem status_report (o : Outcome) (e : Engine) : ∃ k, (report o e).status = .ok k := by
  cases o with
  | running | halted => exact ⟨0, rfl⟩
  | failed f => exact ⟨1, rfl⟩

/-- A launch of complete settings is misused only by a capacity of which no stack can be made, or
by a file name with the character U+0000. -/
theorem misuse_of_launchFor {read : String → Except FileError (List UInt8)} {settings : Settings}
    {n : Nat} {r : Report} {m : Misuse} (h : launchFor n read settings.entries memory = some r)
    (hm : r.status = .error m) :
    (∃ c ∈ [settings.stackSize, settings.returnStackSize], stackOf memory c = .error m) ∨
      m = .embeddedNul := by
  unfold launchFor at h
  cases hbuild : build settings.stackSize settings.returnStackSize settings.debug memory with
  | error l =>
    rw [prepare_of_build_error hbuild] at h
    cases h
    cases hm
    rcases stackOf_of_build_error hbuild with hoperands | hreturns
    · exact .inl ⟨_, List.mem_cons_self, hoperands⟩
    · exact .inl ⟨_, List.mem_cons_of_mem _ List.mem_cons_self, hreturns⟩
  | ok e =>
    cases hread : read settings.filename with
    | error err =>
      rw [prepare_of_unread hbuild hread] at h
      cases h
      cases err with
      | embeddedNul =>
        cases hm
        exact .inr rfl
      | _ => cases hm
    | ok bytes =>
      rw [prepare_of_read hbuild hread] at h
      cases hdecode : Encoding.decode bytes with
      | error f =>
        rw [loadBytes_of_decode_error hdecode] at h
        cases h
        cases hm
      | ok ws =>
        obtain ⟨p, hloads⟩ := loadBytes_of_decode hdecode
        rw [(hloads e).2] at h
        dsimp only at h
        split at h
        · cases h
        · cases h
          obtain ⟨k, hk⟩ := status_report _ _
          rw [hk] at hm
          cases hm

/-- A stack of a capacity that is not negative is not refused for being negative, whatever memory
has room for. -/
private theorem stackOf_ne_negative {c : CapacitySetting} (h : ∀ n, c = .slots n → 0 ≤ n) :
    stackOf memory c ≠ .error (.badCapacity .negativeCapacity) := by
  have hrefused {n : Int} (hn : 0 ≤ n) :
      (Stack.ofCapacity n memory).mapError Misuse.badCapacity ≠
        .error (.badCapacity .negativeCapacity) := by
    cases hs : Stack.ofCapacity n memory with
    | ok s => nofun
    | error f =>
      intro hrefused
      cases hrefused
      rcases Stack.ofCapacity_eq_error_iff.mp hs with ⟨hneg, _⟩ | ⟨_, _, hcause⟩
      · omega
      · -- Want of room is another cause, whichever of its two wordings is meant.
        split at hcause
        · cases hcause
        · cases hcause
  cases c with
  | standard =>
    have hdefault : 0 ≤ Engine.defaultCapacity := by decide
    exact hrefused hdefault
  | slots n => exact hrefused (h n rfl)
  | blank => nofun

end Launch

namespace CommandLine

/-- No negative capacity gets from a command line to a stack. Let arguments be parsed to settings.

- If the values in them are all converted, each capacity is the one that a stack has unless a caller
  says otherwise, or a number that is not negative.
- Whether or not they are, no capacity is a negative number.
- So a launch with these settings never fails because a stack was to have a negative capacity,
  whatever the file is, whatever memory has room for, and however long the run may be. -/
theorem capacities_of_parse {args : List String} {s : Settings} (h : parse args = .ok s) :
    (ConvertsValues args → ∀ c ∈ [s.stackSize, s.returnStackSize],
      c = .standard ∨ ∃ n, 0 ≤ n ∧ c = .slots n) ∧
    (∀ n, .slots n ∈ [s.stackSize, s.returnStackSize] → 0 ≤ n) ∧
    ∀ read n r memory, Launch.launchFor n read s.entries memory = some r →
      r.status ≠ .error (.badCapacity .negativeCapacity) := by
  obtain ⟨as, has, hoperands, hreturns⟩ := stored_of_parse h
  have hstored : ∀ c ∈ [s.stackSize, s.returnStackSize], ∃ o, Stored as o c := by
    intro c hc
    rcases List.mem_cons.mp hc with rfl | hc
    · exact ⟨_, hoperands⟩
    · rw [List.mem_singleton.mp hc]
      exact ⟨_, hreturns⟩
  have hnonneg (n : Int) (hn : .slots n ∈ [s.stackSize, s.returnStackSize]) : 0 ≤ n := by
    obtain ⟨o, ho⟩ := hstored _ hn
    exact nonneg_of_stored ho
  refine ⟨fun hconverts c hc => ?_, hnonneg, fun read n r memory hr hstatus => ?_⟩
  · obtain ⟨o, ho⟩ := hstored c hc
    exact stored_cases ho has hconverts
  · rcases Launch.misuse_of_launchFor hr hstatus with ⟨c, hc, hrefused⟩ | hnul
    · refine Launch.stackOf_ne_negative (fun n hn => ?_) hrefused
      rw [hn] at hc
      exact hnonneg n hc
    · cases hnul

/-- Flags and a value in one argument, an abbreviation, and an option that is given twice: the last
value counts, and both capacities are numbers that are not negative. -/
theorem capacities_of_parse_spellings : ∃ s,
    parse ["-ds5", "--st", "7", "--ret=0", "-r3", "f"] = .ok s ∧
    ConvertsValues ["-ds5", "--st", "7", "--ret=0", "-r3", "f"] ∧
    s.stackSize = .slots 7 ∧ s.returnStackSize = .slots 3 ∧
    (∀ c ∈ [s.stackSize, s.returnStackSize], c = .standard ∨ ∃ n, 0 ≤ n ∧ c = .slots n) := by
  have hparse : parse ["-ds5", "--st", "7", "--ret=0", "-r3", "f"]
      = .ok ⟨"f", .slots 7, .slots 3, true⟩ := by
    -- The result is evaluated through an equality of settings, for those can be decided.
    have hsettings : (parse ["-ds5", "--st", "7", "--ret=0", "-r3", "f"]).toOption
        = some ⟨"f", .slots 7, .slots 3, true⟩ := by decide +kernel
    cases h : parse ["-ds5", "--st", "7", "--ret=0", "-r3", "f"] with
    | ok s =>
      rw [h] at hsettings
      cases hsettings
      rfl
    | error ending =>
      rw [h] at hsettings
      cases hsettings
  have hconverts : ConvertsValues ["-ds5", "--st", "7", "--ret=0", "-r3", "f"] := by
    intro as has x hx
    have hclasses : classifyAll ["-ds5", "--st", "7", "--ret=0", "-r3", "f"] = .ok
        [.option .debug .short (some "s5"), .option .stackSize .long none, .positional "7",
          .option .returnStackSize .long (some "0"), .option .returnStackSize .short (some "3"),
          .positional "f"] := rfl
    rw [hclasses] at has
    cases has
    have hgiven : ∀ x ∈ valuesGiven [.option .debug .short (some "s5"),
        .option .stackSize .long none, .positional "7",
        .option .returnStackSize .long (some "0"), .option .returnStackSize .short (some "3"),
        .positional "f"], x.2 ≠ "--" := by decide +kernel
    exact converted_iff.mpr (hgiven x hx)
  exact ⟨_, hparse, hconverts, rfl, rfl, (capacities_of_parse hparse).1 hconverts⟩

end CommandLine

end StackMachine
