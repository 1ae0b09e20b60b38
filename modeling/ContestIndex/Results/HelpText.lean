import Mathlib.Algebra.Ring.Nat
import ContestIndex.Results.CommandLine

/-! @src common/argument_parser.cc | name:Alternative names and the help text | layer:results

    `add_argument` uses the first name as a key after the list has lost it, once for every alternative.
    `option_string` pads the joined names with `padding() - length` blanks, a difference of unsigned
    numbers:

        length  0 ············· padding │ padding + 1 ···
        blanks  padding ············· 0 │ 2⁶⁴ - 1 ···      std::length_error -/

namespace Contest
namespace ArgumentParser

/-! ### Alternatives -/

theorem readNode_eq_none {nodes : List (String × Nat)} {s : Nat} (h : ∀ node ∈ nodes, node.2 ≠ s) :
    readNode nodes s = none := by
  rw [readNode, List.find?_eq_none.2 (by simpa using h)]
  rfl

/-- RUN (loop of `add_argument`): without the node of `s`, no read of `s` finds its string. -/
theorem addAlternatives_reads {s : Nat} {nodes : List (String × Nat)} (h : ∀ node ∈ nodes, node.2 ≠ s)
    (argument : ArgumentPtr) (stale : Nat → String) (p : ArgumentParser) :
    (addAlternatives s argument stale nodes p).2 = nodes.map fun _ => false := by
  induction nodes generalizing p with
  | nil => rfl
  | cons front rest ih =>
    rw [addAlternatives, ih (fun node hnode => h node (List.mem_cons_of_mem _ hnode)), readNode_eq_none h]
    rfl

/-- Every alternative is recorded after the first name has gone. -/
theorem addArgument_reads (p : ArgumentParser) (names : Names) (stale : Nat → String) :
    (p.addArgument names stale).reads = names.1.tail.map fun _ => false := by
  obtain ⟨names, hne⟩ := names
  cases names with
  | nil => exact absurd rfl hne
  | cons name names =>
    have hgone : ∀ node ∈ (name :: names).zipIdx.tail, node.2 ≠ 0 := by
      intro node hnode
      rw [List.zipIdx_cons, List.tail_cons] at hnode
      exact Nat.ne_of_gt (List.le_snd_of_mem_zipIdx hnode)
    refine (addAlternatives_reads hgone _ stale _).trans ?_
    rw [List.zipIdx_cons, List.tail_cons, List.tail_cons, List.map_const', List.map_const',
      List.length_zipIdx]

/-- `add_argument(names)` does what it is for: all names lead to a new argument, the alternatives stand
    under the first name, and the first name is never read after its node has gone. -/
structure RecordsAlternatives (p : ArgumentParser) (names : Names) (stale : Nat → String) : Prop where
  created : (p.addArgument names stale).argument = p.free ∧
    (p.addArgument names stale).parser.objects p.free = Argument.new
  named : ∀ n ∈ names.1, (p.addArgument names stale).parser.getArgument n = some p.free
  appended : ∀ key, (p.addArgument names stale).parser.alternativeArgs key =
    if key = names.1.head names.2 then p.alternativeArgs key ++ names.1.tail else p.alternativeArgs key
  live : ∀ read ∈ (p.addArgument names stale).reads, read = true

/-- DIVERGES (`add_argument`): it works for a single name only. -/
theorem add_argument_records_iff (p : ArgumentParser) (names : Names) (stale : Nat → String) :
    RecordsAlternatives p names stale ↔ names.1.length = 1 := by
  constructor
  · intro h
    have hlive := h.live
    obtain ⟨names, hne⟩ := names
    rw [addArgument_reads] at hlive
    cases names with
    | nil => exact absurd rfl hne
    | cons name names =>
      cases names with
      | nil => rfl
      | cons alternative names => exact absurd (hlive false (by simp)) (by decide)
  · obtain ⟨names, hne⟩ := names
    intro hlen
    obtain ⟨name, rfl⟩ := List.length_eq_one_iff.1 hlen
    refine ⟨⟨rfl, by simp⟩, fun n hn => by simp [getArgument, List.mem_singleton.1 hn], fun key => ?_, ?_⟩
    · rw [List.tail_cons, List.append_nil, ite_self]
      rfl
    · rw [addArgument_reads]
      simp

/-- The help option, as `parse_args` registers it: `--help` lands under what the freed name reads as. -/
theorem help_option_recorded_elsewhere :
    ¬RecordsAlternatives new ⟨["-h", "--help"], by simp⟩ (fun _ => "") ∧
      (new.addArgument ⟨["-h", "--help"], by simp⟩ (fun _ => "")).parser.alternativeArgs "-h" = [] ∧
      (new.addArgument ⟨["-h", "--help"], by simp⟩ (fun _ => "")).parser.alternativeArgs "" =
        ["--help"] := by
  refine ⟨fun h => absurd (h.live false (by decide)) (by decide), by decide, by decide⟩

/-! ### The padding -/

/-- ` <metavar>` takes a blank more than the metavar, if there is one. -/
def metavarWidth (arg : Argument) : Nat := if arg.metavar ≠ "" then 1 + arg.metavar.length else 0

/-- The columns that the names of an argument take: each with its metavar, and `, ` between them. -/
def optionWidth (p : ArgumentParser) (n : String) (arg : Argument) : Nat :=
  (n.length + metavarWidth arg) +
    ((p.alternativeArgs n).map fun name => 2 + name.length + metavarWidth arg).sum

theorem metavarPart_length (arg : Argument) : (metavarPart arg).length = metavarWidth arg := by
  rw [metavarPart, metavarWidth]
  split
  · rw [String.length_append]
    rfl
  · rfl

theorem joinedNames_length (p : ArgumentParser) (n : String) (arg : Argument) :
    (p.joinedNames n arg).length = p.optionWidth n arg := by
  have hfold : ∀ (names : List String) (result : String),
      (names.foldl (fun result name => result ++ ", " ++ name ++ metavarPart arg) result).length =
        result.length + (names.map fun name => 2 + name.length + metavarWidth arg).sum := by
    intro names
    induction names with
    | nil => exact fun _ => rfl
    | cons name names ih =>
      intro result
      rw [List.foldl_cons, ih, String.length_append, String.length_append, String.length_append,
        metavarPart_length, List.map_cons, List.sum_cons]
      have hcomma : ", ".length = 2 := rfl
      omega
  rw [joinedNames, hfold, String.length_append, metavarPart_length, optionWidth]

/-- `length ≤ padding`: the unsigned difference is the true one. -/
theorem blanks_of_le {padding : UInt32} {length : Nat} (h : length ≤ padding.toNat) :
    blanks (padding.toUInt64 - UInt64.ofNat (min length maxSize)) =
      some (String.ofList (List.replicate (padding.toNat - length) ' ')) := by
  have hpad := padding.toNat_lt
  have hmin : min length maxSize = length := Nat.min_eq_left (by rw [maxSize]; omega)
  have hcount : (padding.toUInt64 - UInt64.ofNat (min length maxSize)).toNat =
      padding.toNat - length := by
    rw [hmin, UInt64.toNat_sub, UInt64.toNat_ofNat', UInt32.toNat_toUInt64]
    omega
  rw [blanks, hcount, if_pos (by rw [maxSize]; omega)]

/-- `padding < length`: the difference wraps to more characters than a string can have. -/
theorem blanks_of_gt {padding : UInt32} {length : Nat} (h : padding.toNat < length) :
    blanks (padding.toUInt64 - UInt64.ofNat (min length maxSize)) = none := by
  have hpad := padding.toNat_lt
  have hlong : padding.toNat < min length maxSize := Nat.lt_min.2 ⟨h, by rw [maxSize]; omega⟩
  have hbound : min length maxSize ≤ maxSize := Nat.min_le_right _ _
  rw [blanks, if_neg]
  rw [UInt64.toNat_sub, UInt64.toNat_ofNat', UInt32.toNat_toUInt64]
  rw [maxSize] at hlong hbound ⊢
  omega

/-! ### The help text -/

/-- The line of an argument: its joined names, the blanks up to the padding, and its help. -/
def optionLine (p : ArgumentParser) (n : String) (arg : Argument) : String :=
  p.joinedNames n arg ++
    String.ofList (List.replicate (p.padding.toNat - p.optionWidth n arg) ' ') ++ arg.help

/-- A name of the option list whose argument has its names within the padding. -/
def Fits (p : ArgumentParser) (n : String) : Prop :=
  ∀ a, p.getArgument n = some a → p.optionWidth n (p.objects a) ≤ p.padding.toNat

theorem optionString_of_fits {p : ArgumentParser} {n : String} {a : ArgumentPtr}
    (ha : p.getArgument n = some a) (h : Fits p n) :
    p.optionString n = some (p.optionLine n (p.objects a)) := by
  rw [optionString, ha]
  simp only [joinedNames_length, blanks_of_le (h a ha), Option.map_some]
  rfl

theorem optionString_eq_none {p : ArgumentParser} {n : String} (h : ¬Fits p n) :
    p.optionString n = none := by
  rw [Fits, Classical.not_forall] at h
  obtain ⟨a, hwide⟩ := h
  obtain ⟨ha, hlt⟩ := Classical.not_imp.1 hwide
  rw [optionString, ha]
  simp only [joinedNames_length, blanks_of_gt (Nat.lt_of_not_le hlt), Option.map_none]

/-- The text has the piece in it. -/
def Contains (text piece : String) : Prop := ∃ before after, text = before ++ piece ++ after

theorem Contains.refl (text : String) : Contains text text := ⟨"", "", by simp⟩

theorem Contains.extend {text piece : String} (h : Contains text piece) (before after : String) :
    Contains (before ++ text ++ after) piece := by
  obtain ⟨b, a, rfl⟩ := h
  exact ⟨before ++ b, a ++ after, by simp only [String.append_assoc]⟩

/-- RUN (loop of `help_string`): it ends if every line does, and then has all of them. -/
theorem optionLines_of_fits {p : ArgumentParser} {names : List String} (h : ∀ n ∈ names, Fits p n) :
    ∃ text, p.optionLines names = some text ∧
      ∀ n ∈ names, ∀ a, p.getArgument n = some a → Contains text (p.optionLine n (p.objects a)) := by
  induction names with
  | nil => exact ⟨"", rfl, fun n hn => absurd hn List.not_mem_nil⟩
  | cons name names ih =>
    obtain ⟨rest, hrest, hlines⟩ := ih fun n hn => h n (List.mem_cons_of_mem _ hn)
    obtain ⟨option, hoption⟩ : ∃ option, p.optionString name = some option := by
      rcases ha : p.getArgument name with _ | a
      · exact ⟨"", by rw [optionString, ha]⟩
      · exact ⟨_, optionString_of_fits ha (h name (by simp))⟩
    refine ⟨p.indent ++ option ++ "\n" ++ rest, by simp [optionLines, hoption, hrest], ?_⟩
    intro n hn a ha
    rcases List.mem_cons.1 hn with rfl | hn
    · obtain rfl := Option.some.inj (hoption.symm.trans (optionString_of_fits ha (h n (by simp))))
      simpa only [String.append_assoc] using (Contains.refl _).extend p.indent ("\n" ++ rest)
    · simpa using (hlines n hn a ha).extend (p.indent ++ option ++ "\n") ""

/-- RUN (loop of `help_string`): one line that throws ends it. -/
theorem fits_of_optionLines {p : ArgumentParser} {names : List String} {text : String}
    (h : p.optionLines names = some text) : ∀ n ∈ names, Fits p n := by
  induction names generalizing text with
  | nil => exact fun n hn => absurd hn List.not_mem_nil
  | cons name names ih =>
    intro n hn
    simp only [optionLines, Option.bind_eq_bind, Option.bind_eq_some_iff] at h
    obtain ⟨option, hoption, rest, hrest, -⟩ := h
    rcases List.mem_cons.1 hn with rfl | hn
    · by_contra hwide
      rw [optionString_eq_none hwide] at hoption
      cases hoption
    · exact ih hrest n hn

/-- The names in the line of the listed name `n`. -/
def printedNames (p : ArgumentParser) (n : String) : List String := n :: p.alternativeArgs n

theorem joinedNames_contains (p : ArgumentParser) {n name : String} (arg : Argument)
    (h : name ∈ p.printedNames n) : Contains (p.joinedNames n arg) name := by
  have hfold : ∀ (names : List String) (result : String),
      Contains result name ∨ name ∈ names → Contains (names.foldl (fun result alternative =>
        result ++ ", " ++ alternative ++ metavarPart arg) result) name := by
    intro names
    induction names with
    | nil => exact fun result hin => hin.resolve_right List.not_mem_nil
    | cons alternative names ih =>
      intro result hin
      refine ih _ ?_
      rcases hin with hresult | hin
      · left
        simpa [String.append_assoc] using hresult.extend "" (", " ++ alternative ++ metavarPart arg)
      · rcases List.mem_cons.1 hin with rfl | hin
        · exact .inl ⟨result ++ ", ", metavarPart arg, rfl⟩
        · exact .inr hin
  refine hfold _ _ ?_
  rcases List.mem_cons.1 h with rfl | h
  · exact .inl ⟨"", metavarPart arg, by simp⟩
  · exact .inr h

/-- The help text is built: no padding count is negative, and every name that leads to an argument is
    in the text, in a line with the argument's help and at most `padding()` blanks before it. -/
structure BuildsHelp (p : ArgumentParser) : Prop where
  nonneg : ∀ n ∈ p.argList, ∀ a, p.getArgument n = some a →
    (0 : Int) ≤ (p.padding.toNat : Int) - ((p.joinedNames n (p.objects a)).length : Int)
  text : ∃ text, p.helpString = some text ∧ ∀ name a, p.getArgument name = some a →
    ∃ n ∈ p.argList, p.getArgument n = some a ∧ name ∈ p.printedNames n ∧
      ∃ k ≤ p.padding.toNat, Contains text (p.joinedNames n (p.objects a) ++
        String.ofList (List.replicate k ' ') ++ (p.objects a).help)

/-- Every name that leads to an argument stands in the line of a listed name of this argument. -/
def PrintsNames (p : ArgumentParser) : Prop := ∀ name a, p.getArgument name = some a →
  ∃ n ∈ p.argList, p.getArgument n = some a ∧ name ∈ p.printedNames n

/-- The text that is built has every name of an argument, and its help. -/
theorem BuildsHelp.contains {p : ArgumentParser} (h : BuildsHelp p) : ∃ text,
    p.helpString = some text ∧ ∀ name a, p.getArgument name = some a →
      Contains text name ∧ Contains text (p.objects a).help := by
  obtain ⟨text, htext, hnames⟩ := h.text
  refine ⟨text, htext, fun name a ha => ?_⟩
  obtain ⟨n, -, -, hprinted, k, -, before, after, rfl⟩ := hnames name a ha
  have hjoined := joinedNames_contains p (p.objects a) hprinted
  constructor
  · simpa only [String.append_assoc] using hjoined.extend before
      (String.ofList (List.replicate k ' ') ++ (p.objects a).help ++ after)
  · exact ⟨before ++ p.joinedNames n (p.objects a) ++ String.ofList (List.replicate k ' '), after,
      by simp only [String.append_assoc]⟩

/-- `add_argument("-t", "--test")` where the freed name reads as another string: a text without
    `--test`. -/
theorem name_without_line :
    ¬BuildsHelp (setup [.addArgument ⟨["-t", "--test"], by simp⟩ fun _ => ""]) ∧
      (setup [.addArgument ⟨["-t", "--test"], by simp⟩ fun _ => ""]).optionString "-t" =
        some ("-t" ++ String.ofList (List.replicate 48 ' ') ++ "test") := by
  refine ⟨fun h => ?_, by decide⟩
  obtain ⟨_, -, hnames⟩ := h.text
  obtain ⟨n, hn, -, hprinted, -⟩ := hnames "--test" 0 (by decide)
  obtain rfl : n = "-t" := List.mem_singleton.1 hn
  exact absurd hprinted (by decide)

end ArgumentParser
end Contest
