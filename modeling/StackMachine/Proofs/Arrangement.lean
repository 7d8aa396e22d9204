import StackMachine.Proofs.GivenCapacities

/-!
# `StackMachine.Proofs.Arrangement`: options in any order and number

A command line may be arranged freely: the file name stands anywhere among the options, and every
option may be given as often as one likes. `parse_of_arrangement` says what such a command line
stands for: of each capacity the last value counts, and a flag counts however often it is given.

- `Group` is an option with its value, or a flag, as it is written on a command line.
- `Holds gs p` says what is set after the groups `gs`, whatever their order.
- `scan_arguments` handles one group, and `scan_groups` any number of them by induction.
- `classifyAll_words`: the words of a group are classified as its arguments. A value is never taken
  for an option, nor for the file name.
-/

set_option autoImplicit false

namespace StackMachine.CommandLine

/-- Arguments that belong together: an option with its value, or a flag. -/
inductive Group where
  /-- The option for the operand stack. -/
  | operands (style : Opt.Style) (value : String)
  /-- The option for the return stack. -/
  | returns (style : Opt.Style) (value : String)
  | debug (style : Opt.Style)
  deriving DecidableEq, Repr

/-- An argument that does not begin with a dash. -/
def Plain (text : String) : Prop := text.toList.head? ≠ some '-'

instance (text : String) : Decidable (Plain text) := inferInstanceAs (Decidable (_ ≠ _))

namespace Group

/-- A group as it is written. -/
def words : Group → List String
  | operands .short value => ["-s", value]
  | operands .long value => ["--stack_size", value]
  | returns .short value => ["-r", value]
  | returns .long value => ["--return_stack_size", value]
  | debug .short => ["-d"]
  | debug .long => ["--debug"]

/-- The value for the operand stack. -/
def operandValue? : Group → Option String
  | operands _ value => some value
  | returns _ _ | debug _ => none

/-- The value for the return stack. -/
def returnValue? : Group → Option String
  | returns _ value => some value
  | operands _ _ | debug _ => none

/-- Whether a group is the flag. -/
def isDebug : Group → Bool
  | debug _ => true
  | operands _ _ | returns _ _ => false

/-- A value does not begin with a dash, and is a capacity. -/
def Accepted : Group → Prop
  | operands _ value | returns _ value => Plain value ∧ ∃ n, Capacity.ofText value = .ok n
  | debug _ => True

/-- A group as classified arguments. -/
def arguments : Group → List Argument
  | operands style value => [.option .stackSize style none, .positional value]
  | returns style value => [.option .returnStackSize style none, .positional value]
  | debug style => [.option .debug style none]

end Group

/-- The last of the values is what a capacity is set to. Without a value it is the one that a stack
has unless the arguments say otherwise. -/
def SetBy (values : List String) (c : CapacitySetting) : Prop :=
  match values.getLast? with
  | none => c = .standard
  | some value => ∃ n, Capacity.ofText value = .ok n ∧ c = .slots n

/-- What is set after groups, apart from the file name. -/
structure Holds (gs : List Group) (p : Progress) : Prop where
  stackSize : SetBy (gs.filterMap Group.operandValue?) p.stackSize
  returnStackSize : SetBy (gs.filterMap Group.returnValue?) p.returnStackSize
  debug : p.debug = gs.any Group.isDebug
  extras : p.extras = []

/-! ### Classification -/

/-- A text that does not begin with a dash is no option. This is why values are asked to be plain:
any other text might be taken for an option itself. -/
private theorem classify_of_plain {text : String} (h : Plain text) :
    classify text = .ok (.positional text) := by
  unfold classify
  split
  · rename_i body htext
    exact absurd (by rw [htext]; rfl) h
  · rfl

/-- Nor is it the separator. -/
private theorem ne_separator_of_plain {text : String} (h : Plain text) : text ≠ "--" := by
  rintro rfl
  exact absurd h (by decide)

/-- A text that is classified on its own, in front of others. Only the separator changes how the
texts behind it are classified. -/
private theorem classifyAll_cons {text : String} {rest : List String} {a : Argument}
    {as : List Argument}
    (hne : text ≠ "--") (ha : classify text = .ok a) (has : classifyAll rest = .ok as) :
    classifyAll (text :: rest) = .ok (a :: as) := by
  unfold classifyAll
  simp only [if_neg hne, ha, has]

/-- A text that does not begin with a dash, in front of others. -/
private theorem classifyAll_cons_of_plain {text : String} {rest : List String} {as : List Argument}
    (h : Plain text) (has : classifyAll rest = .ok as) :
    classifyAll (text :: rest) = .ok (.positional text :: as) :=
  classifyAll_cons (ne_separator_of_plain h) (classify_of_plain h) has

/-- The words of a group are classified as its arguments. The rest may be anything that is
classified, so that groups can be put in front of each other. -/
private theorem classifyAll_words {g : Group} (hg : g.Accepted) {rest : List String}
    {as : List Argument}
    (has : classifyAll rest = .ok as) :
    classifyAll (g.words ++ rest) = .ok (g.arguments ++ as) := by
  cases g with
  | operands style value =>
    have hvalue := classifyAll_cons_of_plain hg.1 has
    cases style with
    | short => exact classifyAll_cons (by decide) rfl hvalue
    | long => exact classifyAll_cons (by decide) rfl hvalue
  | returns style value =>
    have hvalue := classifyAll_cons_of_plain hg.1 has
    cases style with
    | short => exact classifyAll_cons (by decide) rfl hvalue
    | long => exact classifyAll_cons (by decide) rfl hvalue
  | debug style =>
    cases style with
    | short => exact classifyAll_cons (by decide) rfl has
    | long => exact classifyAll_cons (by decide) rfl has

/-- So are the words of several groups. -/
private theorem classifyAll_groups {gs : List Group} (hgs : ∀ g ∈ gs, g.Accepted)
    {rest : List String}
    {as : List Argument} (has : classifyAll rest = .ok as) :
    classifyAll (gs.flatMap Group.words ++ rest) = .ok (gs.flatMap Group.arguments ++ as) := by
  induction gs with
  | nil => exact has
  | cons g gs ih =>
    have hrest := ih fun g hg => hgs g (List.mem_cons_of_mem _ hg)
    rw [List.flatMap_cons, List.flatMap_cons, List.append_assoc, List.append_assoc]
    exact classifyAll_words (hgs g List.mem_cons_self) hrest

/-! ### Scanning -/

/-- One more value sets a capacity anew. -/
private theorem setBy_concat {values : List String} {value : String} {n : Int}
    (h : Capacity.ofText value = .ok n) : SetBy (values ++ [value]) (.slots n) := by
  unfold SetBy
  rw [List.getLast?_concat]
  exact ⟨n, h, rfl⟩

/-- The values decide the capacity. This is why the order matters only among values for the same
stack. -/
theorem SetBy.unique {values : List String} {c d : CapacitySetting} (hc : SetBy values c)
    (hd : SetBy values d) : c = d := by
  unfold SetBy at hc hd
  split at hc
  · simp_all
  · rename_i value hvalue
    rw [hvalue] at hd
    obtain ⟨n, hn, rfl⟩ := hc
    obtain ⟨m, hm, rfl⟩ := hd
    rw [hn] at hm
    cases hm
    rfl

/-- Before the first group, nothing is set. -/
private theorem holds_initial : Holds [] Progress.initial := ⟨rfl, rfl, rfl, rfl⟩

section

variable {p q : Progress} {gs : List Group} {g : Group}

/-- An option takes the next argument for its value. What the value does to the setting is left to
`hset`, so that both options are cases of this. -/
private theorem scan_option {o : Opt} {style : Opt.Style} {value : String}
    (htakes : o.takesValue = true)
    (hset : ({ p with justNamed := false } : Progress).value o value = .ok q)
    (rest : List Argument) :
    scan p (.option o style none :: .positional value :: rest) = scan q rest := by
  simp only [scan, Cluster.ofArgument, htakes, if_true, Progress.flags, hset]

/-- The flag takes none. -/
private theorem scan_debug (style : Opt.Style) (rest : List Argument) :
    scan p (.option .debug style none :: rest)
      = scan { p with justNamed := false, debug := true } rest := by
  simp only [scan, Cluster.ofArgument, Opt.takesValue, Bool.false_eq_true, if_false,
    List.nil_append, Progress.flags, Progress.flag]

/-- A value that stands for a capacity is stored as it was converted. It replaces a value that was
stored before, which is why the last one counts. -/
private theorem value_of_plain {value : String} {n : Int} (hplain : Plain value)
    (hn : Capacity.ofText value = .ok n) :
    p.value .stackSize value = .ok { p with stackSize := .slots n } ∧
      p.value .returnStackSize value = .ok { p with returnStackSize := .slots n } := by
  have hcapacity : Progress.capacity value = .ok (.slots n) := by
    rw [converted_iff.mpr (ne_separator_of_plain hplain), hn]
    rfl
  constructor
  · simp only [Progress.value, hcapacity]
  · simp only [Progress.value, hcapacity]

/-- One group sets what it says, and leaves the file name alone. The groups differ here and nowhere
else. -/
theorem scan_arguments (hg : g.Accepted) (h : Holds gs p) (rest : List Argument) :
    ∃ q, scan p (g.arguments ++ rest) = scan q rest ∧ Holds (gs ++ [g]) q ∧
      q.filename = p.filename := by
  have hdebug : (p.debug || g.isDebug) = (gs ++ [g]).any Group.isDebug := by
    rw [List.any_append, h.debug, List.any_cons, List.any_nil, Bool.or_false]
  have hkept {f : Group → Option String} (hf : f g = none) :
      (gs ++ [g]).filterMap f = gs.filterMap f := by
    rw [List.filterMap_append, List.filterMap_cons_none hf, List.filterMap_nil, List.append_nil]
  have hadded {f : Group → Option String} {value : String} (hf : f g = some value) :
      (gs ++ [g]).filterMap f = gs.filterMap f ++ [value] := by
    rw [List.filterMap_append, List.filterMap_cons_some hf, List.filterMap_nil]
  cases g with
  | operands style value =>
    obtain ⟨hplain, n, hn⟩ := hg
    refine ⟨_, scan_option rfl (value_of_plain hplain hn).1 rest, ⟨?_, ?_, ?_, h.extras⟩, rfl⟩
    · rw [hadded rfl]
      exact setBy_concat hn
    · rw [hkept rfl]
      exact h.returnStackSize
    · rw [← hdebug]
      exact (Bool.or_false _).symm
  | returns style value =>
    obtain ⟨hplain, n, hn⟩ := hg
    refine ⟨_, scan_option rfl (value_of_plain hplain hn).2 rest, ⟨?_, ?_, ?_, h.extras⟩, rfl⟩
    · rw [hkept rfl]
      exact h.stackSize
    · rw [hadded rfl]
      exact setBy_concat hn
    · rw [← hdebug]
      exact (Bool.or_false _).symm
  | debug style =>
    refine ⟨_, scan_debug style rest, ⟨?_, ?_, ?_, h.extras⟩, rfl⟩
    · rw [hkept rfl]
      exact h.stackSize
    · rw [hkept rfl]
      exact h.returnStackSize
    · rw [← hdebug]
      exact (Bool.or_true _).symm

/-- Any number of groups, by induction on them. What the groups before have left is carried along
as `Holds`, and the arguments behind them are any, so that the file name may stand among the
groups. -/
theorem scan_groups {done : List Group} (hgs : ∀ g ∈ gs, g.Accepted) (h : Holds done p)
    (rest : List Argument) :
    ∃ q, scan p (gs.flatMap Group.arguments ++ rest) = scan q rest ∧ Holds (done ++ gs) q ∧
      q.filename = p.filename := by
  induction gs generalizing p done with
  | nil => exact ⟨p, rfl, by rwa [List.append_nil], rfl⟩
  | cons g gs ih =>
    obtain ⟨u, hscan, hu, hname⟩ := scan_arguments (hgs g List.mem_cons_self) h
      (gs.flatMap Group.arguments ++ rest)
    obtain ⟨q, hrest, hq, hname'⟩ := ih (fun g hg => hgs g (List.mem_cons_of_mem _ hg)) hu
    refine ⟨q, ?_, ?_, hname'.trans hname⟩
    · rw [List.flatMap_cons, List.append_assoc, hscan, hrest]
    · rwa [List.append_assoc] at hq

end

/-! ### Arrangements -/

/-- A command line on which the file name stands between these groups. -/
def arranged (filename : String) (before after : List Group) : List String :=
  before.flatMap Group.words ++ filename :: after.flatMap Group.words

/-- What an arrangement stands for: the groups before the file name are scanned, then the name, and
then the groups after it. -/
theorem parse_arranged {filename : String} {before after : List Group} (hname : Plain filename)
    (hgs : ∀ g ∈ before ++ after, g.Accepted) :
    ∃ p, Holds (before ++ after) p ∧
      parse (arranged filename before after)
        = .ok ⟨filename, p.stackSize, p.returnStackSize, p.debug⟩ := by
  have hbefore : ∀ g ∈ before, g.Accepted := fun g hg => hgs g (List.mem_append_left _ hg)
  have hafter : ∀ g ∈ after, g.Accepted := fun g hg => hgs g (List.mem_append_right _ hg)
  have hclasses : classifyAll (arranged filename before after)
      = .ok (before.flatMap Group.arguments ++
          .positional filename :: (after.flatMap Group.arguments ++ [])) := by
    have hrest : classifyAll (after.flatMap Group.words ++ [])
        = .ok (after.flatMap Group.arguments ++ []) := classifyAll_groups hafter rfl
    rw [List.append_nil] at hrest
    exact classifyAll_groups hbefore (classifyAll_cons_of_plain hname hrest)
  obtain ⟨p, hfirst, hp, hnone⟩ := scan_groups hbefore holds_initial
    (.positional filename :: (after.flatMap Group.arguments ++ []))
  -- Options take their values along, so this argument is the first one that is left to be the name.
  have hnamed : p.positional filename
      = { p with filename := some filename, justNamed := true } := by
    unfold Progress.positional
    rw [hnone]
    rfl
  have hheld : Holds before (p.positional filename) := by
    rw [hnamed]
    exact ⟨hp.stackSize, hp.returnStackSize, hp.debug, hp.extras⟩
  obtain ⟨q, hsecond, hq, hsome⟩ := scan_groups hafter hheld []
  refine ⟨q, hq, ?_⟩
  have hscan : scan Progress.initial (before.flatMap Group.arguments ++
      .positional filename :: (after.flatMap Group.arguments ++ [])) = .ok q := by
    rw [hfirst]
    exact hsecond
  have hfilename : q.filename = some filename := by rw [hsome, hnamed]
  simp only [parse, hclasses, hscan, Progress.finish, hfilename, if_pos hq.extras]

/-- Options may come in any order and number. Let a file name that does not begin with a dash stand
anywhere among groups whose values do not begin with a dash either and are capacities.

- The command line stands for that file name. Of each capacity the last value counts, and without
  one it is the capacity that a stack has unless the arguments say otherwise. The launch is debugged
  exactly if the flag is among the groups.
- So it stands for the same settings in any other order in which the values of each capacity follow
  one another as they do here, wherever the file name is. -/
theorem parse_of_arrangement {filename : String} {before after : List Group}
    (hname : Plain filename) (hgs : ∀ g ∈ before ++ after, g.Accepted) :
    (∃ c d, SetBy ((before ++ after).filterMap Group.operandValue?) c ∧
      SetBy ((before ++ after).filterMap Group.returnValue?) d ∧
      parse (arranged filename before after)
        = .ok ⟨filename, c, d, (before ++ after).any Group.isDebug⟩) ∧
    ∀ before' after', (before' ++ after').Perm (before ++ after) →
      (before' ++ after').filterMap Group.operandValue?
        = (before ++ after).filterMap Group.operandValue? →
      (before' ++ after').filterMap Group.returnValue?
        = (before ++ after).filterMap Group.returnValue? →
      parse (arranged filename before' after') = parse (arranged filename before after) := by
  obtain ⟨p, hp, hparse⟩ := parse_arranged hname hgs
  refine ⟨⟨_, _, hp.stackSize, hp.returnStackSize, by rw [hparse, hp.debug]⟩, ?_⟩
  intro before' after' hperm hoperands hreturns
  obtain ⟨q, hq, hparse'⟩ := parse_arranged hname fun g hg => hgs g (hperm.subset hg)
  have hsame : q.stackSize = p.stackSize := by
    have hset := hq.stackSize
    rw [hoperands] at hset
    exact hset.unique hp.stackSize
  have hsame' : q.returnStackSize = p.returnStackSize := by
    have hset := hq.returnStackSize
    rw [hreturns] at hset
    exact hset.unique hp.returnStackSize
  have hdebug : q.debug = p.debug := by
    rw [hq.debug, hp.debug]
    exact hperm.any_eq
  rw [hparse, hparse', hsame, hsame', hdebug]

/-- A file name between options, of which one is given twice and in two spellings: the last value
counts. With the file name in front and the flag at the end, nothing changes. -/
theorem parse_of_arrangement_twice : Plain "prog" ∧
    (∀ g ∈ [Group.operands .short "7", .debug .long] ++
      [.returns .long "0", .operands .long "+5"], g.Accepted) ∧
    parse ["-s", "7", "--debug", "prog", "--return_stack_size", "0", "--stack_size", "+5"]
      = .ok ⟨"prog", .slots 5, .slots 0, true⟩ ∧
    parse ["prog", "--return_stack_size", "0", "-s", "7", "--stack_size", "+5", "--debug"]
      = .ok ⟨"prog", .slots 5, .slots 0, true⟩ := by
  have hname : Plain "prog" := by decide
  have hgs : ∀ g ∈ [Group.operands .short "7", .debug .long] ++
      [.returns .long "0", .operands .long "+5"], g.Accepted := by
    simp only [List.cons_append, List.nil_append, List.forall_mem_cons, Group.Accepted]
    exact ⟨⟨by decide, 7, rfl⟩, trivial, ⟨by decide, 0, rfl⟩, ⟨by decide, 5, rfl⟩, nofun⟩
  obtain ⟨⟨c, d, hc, hd, hparse⟩, hsame⟩ := parse_of_arrangement hname hgs
  obtain rfl : c = .slots 5 := hc.unique ⟨5, rfl, rfl⟩
  obtain rfl : d = .slots 0 := hd.unique ⟨0, rfl, rfl⟩
  have hsame' := hsame [] [.returns .long "0", .operands .short "7", .operands .long "+5",
    .debug .long] (by decide) rfl rfl
  exact ⟨hname, hgs, hparse, hsame'.trans hparse⟩

end StackMachine.CommandLine
