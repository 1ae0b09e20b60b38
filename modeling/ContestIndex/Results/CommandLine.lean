import ContestIndex.Schemes.Blocks
import ContestIndex.Model.ArgumentParser

/-! @src common/argument_parser.cc | name:What the parser accepts | layer:results

    `add_argument` only adds to the tables and makes one new object, so in a parser that has not parsed
    no argument is set. `parse_args` walks over the strings in blocks, a name with the values of its
    argument, and stores each block in the object that the name leads to:

        argv    -t 5 -x -t 6        "-t" ─┐
        blocks  └──┘ ┴  └──┘     "--test" ─┴─▶ { set, values = [5, 6] }

    It registers its own `-h` and `--help` first, over an argument of the program with such a name. -/

namespace Contest
namespace ArgumentParser
open Schemes

/-! ### Registering -/

theorem modify_modify (p : ArgumentParser) (a : ArgumentPtr) (f g : Argument → Argument) :
    (p.modify a f).modify a g = p.modify a (g ∘ f) := by
  simp [modify]

/-- The loop of `add_argument` changes two tables, and binds each name that is left. -/
theorem addAlternatives_eq (s : Nat) (argument : ArgumentPtr) (stale : Nat → String)
    (nodes : List (String × Nat)) (p : ArgumentParser) :
    (addAlternatives s argument stale nodes p).1 =
      { p with
        arguments := fun n => if n ∈ nodes.map (·.1) then some argument else p.arguments n
        alternativeArgs := (addAlternatives s argument stale nodes p).1.alternativeArgs } := by
  induction nodes generalizing p with
  | nil => simp [addAlternatives]
  | cons front rest ih =>
    rw [addAlternatives, ih]
    congr 1
    funext n
    by_cases hrest : n ∈ rest.map (·.1)
    · rw [if_pos hrest, if_pos (by simpa using Or.inr (List.mem_map.1 hrest))]
    · by_cases hn : n = front.1
      · rw [if_neg hrest, if_pos (by simp [hn]), hn]
        exact Function.update_self ..
      · rw [if_neg hrest, if_neg (by simpa [hn] using hrest)]
        exact Function.update_of_ne hn _ _

/-- What `add_argument` does to everything but `alternative_args_`. -/
theorem addArgument_eq (p : ArgumentParser) (names : Names) (stale : Nat → String) :
    (p.addArgument names stale).parser =
      { p with
        objects := Function.update p.objects p.free Argument.new
        free := p.free + 1
        arguments := fun n => if n ∈ names.1 then some p.free else p.arguments n
        alternativeArgs := (p.addArgument names stale).parser.alternativeArgs
        argList := p.argList ++ [names.1.head names.2] } := by
  obtain ⟨names, hne⟩ := names
  cases names with
  | nil => exact absurd rfl hne
  | cons name names =>
    have htail : ((name :: names).zipIdx.tail).map (·.1) = names := by
      rw [List.zipIdx_cons, List.tail_cons, List.zipIdx_map_fst]
    refine (addAlternatives_eq 0 p.free stale (name :: names).zipIdx.tail _).trans ?_
    rw [htail]
    congr 1
    funext n
    by_cases hn : n ∈ names
    · simp [hn]
    · by_cases heq : n = name
      · simp [bindName, heq]
      · simp [bindName, hn, heq]

section AddArgument

variable (p : ArgumentParser) (names : Names) (stale : Nat → String)

@[simp] theorem addArgument_objects : (p.addArgument names stale).parser.objects =
    Function.update p.objects p.free Argument.new := congrArg (·.objects) (addArgument_eq p names stale)

@[simp] theorem addArgument_free : (p.addArgument names stale).parser.free = p.free + 1 :=
  congrArg (·.free) (addArgument_eq p names stale)

@[simp] theorem addArgument_arguments (n : String) : (p.addArgument names stale).parser.arguments n =
    if n ∈ names.1 then some p.free else p.arguments n :=
  congrArg (·.arguments n) (addArgument_eq p names stale)

@[simp] theorem addArgument_addHelp : (p.addArgument names stale).parser.addHelp = p.addHelp :=
  congrArg (·.addHelp) (addArgument_eq p names stale)

@[simp] theorem addArgument_argument : (p.addArgument names stale).argument = p.free := rfl

end AddArgument

/-- What holds of a parser that has not parsed: names lead to objects that were made, and none of them
    is set or has a value. -/
structure Registered (p : ArgumentParser) : Prop where
  allocated : ∀ n a, p.arguments n = some a → a < p.free
  clear : ∀ n a, p.arguments n = some a → (p.objects a).set = false ∧ (p.objects a).values = []

namespace Registered

variable {p : ArgumentParser}

/-- STEP (setter of an argument): setters before the parse leave `set_` and `values_` alone. -/
theorem modify (h : Registered p) (a : ArgumentPtr) (f : Argument → Argument)
    (hset : ∀ arg, (f arg).set = arg.set) (hvalues : ∀ arg, (f arg).values = arg.values) :
    Registered (p.modify a f) where
  allocated := h.allocated
  clear := by
    intro n b hb
    obtain ⟨hclear, hempty⟩ := h.clear n b hb
    by_cases heq : b = a
    · subst heq
      simp [ArgumentParser.modify, hset, hvalues, hclear, hempty]
    · simp [ArgumentParser.modify, heq, hclear, hempty]

/-- STEP (`add_argument`): the new object is clear, and the names of others lead where they did. -/
theorem addArgument (h : Registered p) (names : Names) (stale : Nat → String) :
    Registered (p.addArgument names stale).parser := by
  refine ⟨?_, ?_⟩
  · intro n a ha
    rw [addArgument_free]
    by_cases hn : n ∈ names.1
    · obtain rfl : p.free = a := by simpa [hn] using ha
      exact Nat.lt_succ_self _
    · have hold : p.arguments n = some a := by simpa [hn] using ha
      exact Nat.lt_succ_of_lt (h.allocated n a hold)
  · intro n a ha
    by_cases hn : n ∈ names.1
    · obtain rfl : p.free = a := by simpa [hn] using ha
      simp [Argument.new]
    · have hold : p.arguments n = some a := by simpa [hn] using ha
      have hne : a ≠ p.free := Nat.ne_of_lt (h.allocated n a hold)
      simpa [hne] using h.clear n a hold

theorem step (h : Registered p) (c : Setup) : Registered (p.step c) := by
  cases c with
  | addArgument names stale => exact h.addArgument names stale
  | nargs a nargs => exact h.modify a ({ · with nargs := nargs }) (fun _ => rfl) fun _ => rfl
  | required a required => exact h.modify a ({ · with required := required }) (fun _ => rfl) fun _ => rfl
  | help a help => exact h.modify a ({ · with help := help }) (fun _ => rfl) fun _ => rfl
  | metavar a metavar => exact h.modify a ({ · with metavar := metavar }) (fun _ => rfl) fun _ => rfl
  | _ => exact ⟨h.allocated, h.clear⟩

theorem new : Registered ArgumentParser.new :=
  ⟨fun _ _ h => (Option.some_ne_none _ h.symm).elim, fun _ _ h => (Option.some_ne_none _ h.symm).elim⟩

/-- RUN: it holds after any calls before the parse. -/
theorem setup (calls : List Setup) : Registered (ArgumentParser.setup calls) := by
  have hrun : ∀ p, Registered p → Registered (calls.foldl ArgumentParser.step p) := by
    induction calls with
    | nil => exact fun p h => h
    | cons c calls ih => exact fun p h => ih _ (h.step c)
  exact hrun _ new

end Registered

/-! ### Before the loop -/

/-- The names of the help option, which `parse_args` registers itself. -/
def IsHelp (n : String) : Prop := n ∈ ["-h", "--help"]

instance (n : String) : Decidable (IsHelp n) := inferInstanceAs (Decidable (n ∈ ["-h", "--help"]))

section Prepare

variable (p : ArgumentParser) (argv₀ : String) (stale : Nat → String)

theorem prepare_addHelp : (p.prepare argv₀ stale).addHelp = p.addHelp := by
  by_cases hprog : p.prog ≠ "" <;> cases hhelp : p.addHelp <;>
    simp [prepare, hprog, hhelp, addArgument₂, modify]

theorem prepare_getArgument (n : String) : (p.prepare argv₀ stale).getArgument n =
    if p.addHelp = true ∧ IsHelp n then some p.free else p.getArgument n := by
  by_cases hprog : p.prog ≠ "" <;> cases hhelp : p.addHelp <;>
    simp [prepare, hprog, hhelp, addArgument₂, modify, getArgument, IsHelp]

theorem prepare_objects {a : ArgumentPtr} (ha : a < p.free) :
    (p.prepare argv₀ stale).objects a = p.objects a := by
  by_cases hprog : p.prog ≠ "" <;> cases hhelp : p.addHelp <;>
    simp [prepare, hprog, hhelp, addArgument₂, modify, Nat.ne_of_lt ha]

end Prepare

/-! ### The loops -/

/-- How many strings the argument of a name takes; `none` for a name that is not registered. -/
def arity (p : ArgumentParser) (n : String) : Option Nat :=
  (p.getArgument n).map fun a => (p.objects a).nargs

/-- The argument at `a` is set and gets some values more. -/
def record (p : ArgumentParser) (a : ArgumentPtr) (values : List String) : ArgumentParser :=
  p.modify a fun arg => { arg with set := true, values := arg.values ++ values }

/-- Each block is stored in the argument that its head names. -/
def store (p : ArgumentParser) (blocks : List (Block String)) : ArgumentParser :=
  blocks.foldl (fun p b => match p.getArgument b.head with
    | some a => p.record a b.values
    | none => p) p

theorem record_objects (p : ArgumentParser) (a b : ArgumentPtr) (values : List String) :
    (p.record a values).objects b = if b = a
      then { p.objects b with set := true, values := (p.objects b).values ++ values }
      else p.objects b := by
  by_cases h : b = a
  · subst h
    simp [record, modify]
  · simp [record, modify, h]

theorem record_arity (p : ArgumentParser) (a : ArgumentPtr) (values : List String) :
    (p.record a values).arity = p.arity := by
  funext n
  refine congrArg (Option.map · (p.getArgument n)) (funext fun b => ?_)
  rw [record_objects]
  split <;> rfl

/-- The inner loop takes the next strings as they are, as far as they reach. -/
theorem takeValues_eq (p : ArgumentParser) (a : ArgumentPtr) (j : Nat) (args : List String) :
    p.takeValues a j args =
      (p.modify a fun arg => { arg with values := arg.values ++ args.take j },
        if j ≤ args.length then some (args.drop j) else none) := by
  induction j generalizing p args with
  | zero => simp [takeValues, modify]
  | succ j ih =>
    cases args with
    | nil => simp [takeValues, modify]
    | cons arg args =>
      rw [takeValues, ih, modify_modify]
      simp [Function.comp_def, Argument.addValue]

theorem parseLoop_nil (p : ArgumentParser) : p.parseLoop [] = (p, none) := by rw [parseLoop]

/-- STEP (`parse_args`): one block. It is cut off when the strings that are left are too few. -/
theorem parseLoop_cons {p : ArgumentParser} {arg : String} {a : ArgumentPtr} (args : List String)
    (ha : p.getArgument arg = some a) : p.parseLoop (arg :: args) =
      if (p.objects a).nargs ≤ args.length
        then (p.record a (args.take (p.objects a).nargs)).parseLoop (args.drop (p.objects a).nargs)
        else (p.record a args, some (requiresMessage arg (p.objects a).nargs)) := by
  have htake := takeValues_eq (p.modify a ({ · with set := true })) a (p.objects a).nargs args
  rw [modify_modify] at htake
  rw [parseLoop]
  simp only [ha]
  split
  · rename_i q rest heq
    obtain ⟨rfl, hrest⟩ := Prod.mk.inj (htake.symm.trans heq)
    have hle : (p.objects a).nargs ≤ args.length := by
      by_contra hlt
      simp [hlt] at hrest
    rw [if_pos hle] at hrest ⊢
    obtain rfl := Option.some.inj hrest
    rfl
  · rename_i q heq
    obtain ⟨rfl, hrest⟩ := Prod.mk.inj (htake.symm.trans heq)
    have hlt : ¬(p.objects a).nargs ≤ args.length := by
      intro hle
      simp [hle] at hrest
    rw [if_neg hlt, List.take_of_length_le (Nat.le_of_not_le hlt)]
    rfl

theorem parseLoop_unknown {p : ArgumentParser} {arg : String} (args : List String)
    (ha : p.getArgument arg = none) : p.parseLoop (arg :: args) = (p, some (unknownMessage arg)) := by
  rw [parseLoop]
  simp only [ha]

/-- RUN (accepting): strings in blocks are all read, and every block is stored. -/
theorem parseLoop_of_spells {p : ArgumentParser} {args : List String} {blocks : List (Block String)}
    (h : Spells p.arity args blocks) : p.parseLoop args = (p.store blocks, none) := by
  induction blocks generalizing p args with
  | nil =>
    obtain rfl : args = [] := h.words_eq
    exact parseLoop_nil p
  | cons b bs ih =>
    cases args with
    | nil => exact absurd (Spells.nil_iff.1 h) (by simp)
    | cons arg args =>
      obtain ⟨k, cs, hk, hle, hcons, hrest⟩ := Spells.cons_iff.1 h
      obtain ⟨rfl, rfl⟩ := List.cons.inj hcons
      obtain ⟨a, ha, rfl⟩ := Option.map_eq_some_iff.1 hk
      rw [← record_arity p a (args.take (p.objects a).nargs)] at hrest
      rw [parseLoop_cons args ha, if_pos hle, ih hrest, store, store, List.foldl_cons]
      simp only [ha]

/-- RUN (accepted): strings that are all read come in blocks. -/
theorem spells_of_parseLoop {p : ArgumentParser} {args : List String}
    (h : (p.parseLoop args).2 = none) : ∃ blocks, Spells p.arity args blocks := by
  induction hn : args.length using Nat.strongRecOn generalizing p args with
  | ind n ih =>
    cases args with
    | nil => exact ⟨[], Spells.nil_iff.2 rfl⟩
    | cons arg args =>
      rcases ha : p.getArgument arg with _ | a
      · rw [parseLoop_unknown args ha] at h
        cases h
      · rw [parseLoop_cons args ha] at h
        by_cases hle : (p.objects a).nargs ≤ args.length
        · rw [if_pos hle] at h
          have hshort : (args.drop (p.objects a).nargs).length < n := by
            rw [← hn, List.length_drop, List.length_cons]
            omega
          obtain ⟨bs, hbs⟩ := ih _ hshort h rfl
          rw [record_arity] at hbs
          exact ⟨_, Spells.cons_iff.2 ⟨_, bs, by rw [arity, ha]; rfl, hle, rfl, hbs⟩⟩
        · rw [if_neg hle] at h
          cases h

/-! ### What is stored -/

theorem store_cons (p : ArgumentParser) (b : Block String) (bs : List (Block String)) :
    p.store (b :: bs) = (p.store [b]).store bs := rfl

theorem store_single (p : ArgumentParser) (b : Block String) (a : ArgumentPtr) :
    (p.store [b]).objects a = if p.getArgument b.head = some a
      then { p.objects a with set := true, values := (p.objects a).values ++ b.values }
      else p.objects a := by
  rw [store, List.foldl_cons, List.foldl_nil]
  rcases hb : p.getArgument b.head with _ | c
  · simp
  · simp only [record_objects, Option.some.injEq, eq_comm]

@[simp] theorem store_getArgument (p : ArgumentParser) (blocks : List (Block String)) (n : String) :
    (p.store blocks).getArgument n = p.getArgument n := by
  induction blocks generalizing p with
  | nil => rfl
  | cons b bs ih =>
    rw [store_cons, ih, store, List.foldl_cons, List.foldl_nil]
    split <;> rfl

@[simp] theorem store_addHelp (p : ArgumentParser) (blocks : List (Block String)) :
    (p.store blocks).addHelp = p.addHelp := by
  induction blocks generalizing p with
  | nil => rfl
  | cons b bs ih =>
    rw [store_cons, ih, store, List.foldl_cons, List.foldl_nil]
    split <;> rfl

/-- Of the blocks, those of the argument at `a`. -/
def blocksOf (p : ArgumentParser) (blocks : List (Block String)) (a : ArgumentPtr) :
    List (Block String) := blocks.filter fun b => p.getArgument b.head = some a

/-- RUN (storing): an argument is set by its blocks, and gets their values in their order. -/
theorem store_objects (p : ArgumentParser) (blocks : List (Block String)) (a : ArgumentPtr) :
    ((p.store blocks).objects a).set = ((p.objects a).set || !(p.blocksOf blocks a).isEmpty) ∧
      ((p.store blocks).objects a).values =
        (p.objects a).values ++ (p.blocksOf blocks a).flatMap (·.values) := by
  induction blocks generalizing p with
  | nil => simp [store, blocksOf]
  | cons b bs ih =>
    have hsame : (p.store [b]).blocksOf bs a = p.blocksOf bs a := by
      simp only [blocksOf, store_getArgument]
    rw [store_cons, (ih _).1, (ih _).2, hsame, store_single]
    by_cases hb : p.getArgument b.head = some a
    · rw [if_pos hb, blocksOf, blocksOf, List.filter_cons_of_pos (by simpa using hb)]
      simp
    · rw [if_neg hb, blocksOf, blocksOf, List.filter_cons_of_neg (by simpa using hb)]
      exact ⟨rfl, rfl⟩

/-! ### The whole call -/

section ParseArgs

variable {p : ArgumentParser} (argv₀ : String) (args : List String) (stale : Nat → String)

/-- A name that is not the help option leads to the argument the program registered for it. -/
theorem prepare_arity (h : Registered p) {n : String} (hn : p.addHelp = true → ¬IsHelp n) :
    (p.prepare argv₀ stale).arity n = p.arity n := by
  have hget : (p.prepare argv₀ stale).getArgument n = p.getArgument n := by
    rw [prepare_getArgument, if_neg (fun hboth => hn hboth.1 hboth.2)]
  rw [arity, arity, hget]
  rcases ha : p.getArgument n with _ | a
  · rfl
  · simp [prepare_objects p argv₀ stale (h.allocated n a ha)]

/-- The object that `parse_args` makes for its help option. -/
theorem prepare_help (hhelp : p.addHelp = true) :
    ((p.prepare argv₀ stale).objects p.free).set = false ∧
      ((p.prepare argv₀ stale).objects p.free).values = [] := by
  by_cases hprog : p.prog ≠ "" <;> simp [prepare, hprog, hhelp, addArgument₂, modify, Argument.new]

/-- Only the names of the help option lead to that object. -/
theorem prepare_getArgument_free (h : Registered p) (hhelp : p.addHelp = true) (n : String) :
    (p.prepare argv₀ stale).getArgument n = some p.free ↔ IsHelp n := by
  rw [prepare_getArgument]
  by_cases hn : IsHelp n
  · simp [hhelp, hn]
  · rw [if_neg (fun hboth => hn hboth.2)]
    exact iff_of_false (fun ha => absurd (h.allocated n _ ha) (Nat.lt_irrefl _)) hn

/-- The help option is set by a block of its own only. -/
theorem isSet_help (h : Registered p) (hhelp : p.addHelp = true) {n : String} (hn : IsHelp n)
    (blocks : List (Block String)) :
    ((p.prepare argv₀ stale).store blocks).isSet n = false ↔ ∀ b ∈ blocks, ¬IsHelp b.head := by
  have hfree := (prepare_getArgument_free argv₀ stale h hhelp n).2 hn
  rw [isSet, store_getArgument, hfree]
  simp only [store_objects, (prepare_help argv₀ stale hhelp).1, Bool.false_or]
  simp [blocksOf, prepare_getArgument_free argv₀ stale h hhelp]

/-- What the parser accepts: blocks of registered names, none of them for help where it is offered. -/
structure Grammar (p : ArgumentParser) (args : List String) (blocks : List (Block String)) : Prop where
  spells : Spells p.arity args blocks
  no_help : p.addHelp = true → ∀ b ∈ blocks, ¬IsHelp b.head

/-- The help option changes nothing for strings of the grammar. -/
theorem Grammar.prepared (h : Registered p) {args : List String} {blocks : List (Block String)}
    (hg : Grammar p args blocks) : Spells (p.prepare argv₀ stale).arity args blocks :=
  hg.spells.congr fun b hb => prepare_arity argv₀ stale h fun hhelp => hg.no_help hhelp b hb

/-- RUN (`parse_args`): strings of the grammar are accepted, with every block stored. -/
theorem parseArgs_of_grammar (h : Registered p) {args : List String} {blocks : List (Block String)}
    (hg : Grammar p args blocks) : p.parseArgs argv₀ args stale =
      { parser := (p.prepare argv₀ stale).store blocks, result := some true, out := "", err := "" } := by
  have hset : (((p.prepare argv₀ stale).store blocks).isSet "-h" &&
      ((p.prepare argv₀ stale).store blocks).addHelp) = false := by
    rw [store_addHelp, prepare_addHelp]
    cases hhelp : p.addHelp with
    | false => exact Bool.and_false _
    | true =>
      rw [(isSet_help argv₀ stale h hhelp (by decide) blocks).2 (hg.no_help hhelp), Bool.false_and]
  rw [parseArgs, parseLoop_of_spells (hg.prepared argv₀ stale h)]
  simp only [hset, Bool.false_eq_true, if_false]

/-- RUN (`parse_args`): what is accepted is of the grammar. -/
theorem grammar_of_parseArgs (h : Registered p) {args : List String}
    (hr : (p.parseArgs argv₀ args stale).result = some true) : ∃ blocks, Grammar p args blocks := by
  have hnone : ((p.prepare argv₀ stale).parseLoop args).2 = none := by
    rw [parseArgs] at hr
    split at hr
    · cases hr
    · rename_i heq
      rw [heq]
  obtain ⟨blocks, hblocks⟩ := spells_of_parseLoop hnone
  have hno : p.addHelp = true → ∀ b ∈ blocks, ¬IsHelp b.head := by
    intro hhelp
    rw [← isSet_help argv₀ stale h hhelp (by decide : IsHelp "-h") blocks]
    by_contra hset
    rw [parseArgs, parseLoop_of_spells hblocks] at hr
    simp only [store_addHelp, prepare_addHelp, hhelp, Bool.and_true,
      if_pos (eq_true_of_ne_false hset)] at hr
    split at hr <;> cases hr
  exact ⟨blocks, hblocks.congr fun b hb =>
    (prepare_arity argv₀ stale h fun hhelp => hno hhelp b hb).symm, hno⟩

/-- What the program reads in the parser `q` after the blocks were read. Its names are those that it
    registered in `p`, before `parse_args` registered two more. -/
structure Stored (p q : ArgumentParser) (blocks : List (Block String)) : Prop where
  isSet : ∀ n, q.isSet n = true ↔
    ∃ b ∈ blocks, ∃ a, p.getArgument b.head = some a ∧ p.getArgument n = some a
  values : ∀ n a, p.getArgument n = some a →
    (q.objects a).values = (p.blocksOf blocks a).flatMap (·.values)
  getValue : ∀ n a, p.getArgument n = some a → ∀ index,
    q.getValue n index = ((p.blocksOf blocks a).flatMap (·.values))[index]?

/-- No block belongs to an argument that is registered as `-h` or `--help` too. -/
def SparesHelp (p : ArgumentParser) (blocks : List (Block String)) : Prop :=
  ∀ b ∈ blocks, ∀ n, IsHelp n → p.getArgument n ≠ p.getArgument b.head

section Stored

variable {args} {blocks : List (Block String)}

/-- The heads of the blocks lead where they led before the help option was registered. -/
theorem Grammar.getArgument_head (hg : Grammar p args blocks) {b : Block String} (hb : b ∈ blocks) :
    (p.prepare argv₀ stale).getArgument b.head = p.getArgument b.head := by
  rw [prepare_getArgument, if_neg fun hboth => hg.no_help hboth.1 b hb hboth.2]

theorem Grammar.blocksOf_eq (hg : Grammar p args blocks) (a : ArgumentPtr) :
    (p.prepare argv₀ stale).blocksOf blocks a = p.blocksOf blocks a := by
  refine List.filter_congr fun b hb => ?_
  rw [hg.getArgument_head argv₀ stale hb]

/-- An argument of the program gets the values of its blocks. -/
theorem Grammar.values (h : Registered p) (hg : Grammar p args blocks) {n : String} {a : ArgumentPtr}
    (ha : p.getArgument n = some a) :
    (((p.prepare argv₀ stale).store blocks).objects a).values =
      (p.blocksOf blocks a).flatMap (·.values) := by
  rw [(store_objects _ blocks a).2, prepare_objects p argv₀ stale (h.allocated n a ha),
    (h.clear n a ha).2, List.nil_append, hg.blocksOf_eq argv₀ stale]

/-- A name that still leads where it led reads what its argument got. -/
theorem Grammar.isSet_kept (h : Registered p) (hg : Grammar p args blocks) {n : String}
    (hn : ¬(p.addHelp = true ∧ IsHelp n)) :
    ((p.prepare argv₀ stale).store blocks).isSet n = true ↔
      ∃ b ∈ blocks, ∃ a, p.getArgument b.head = some a ∧ p.getArgument n = some a := by
  rw [ArgumentParser.isSet, store_getArgument, prepare_getArgument, if_neg hn]
  rcases ha : p.getArgument n with _ | a
  · simp
  · simp only [(store_objects _ blocks a).1, prepare_objects p argv₀ stale (h.allocated n a ha),
      (h.clear n a ha).1, Bool.false_or, hg.blocksOf_eq argv₀ stale]
    simp [blocksOf]

/-- No block belongs to the help option. -/
theorem Grammar.blocksOf_free (h : Registered p) (hg : Grammar p args blocks)
    (hhelp : p.addHelp = true) : (p.prepare argv₀ stale).blocksOf blocks p.free = [] := by
  refine List.filter_eq_nil_iff.2 fun b hb hfree => ?_
  have hname : IsHelp b.head :=
    (prepare_getArgument_free argv₀ stale h hhelp b.head).1 (of_decide_eq_true hfree)
  exact hg.no_help hhelp b hb hname

/-- What the program reads is right if no block belongs to an argument whose name was taken away. -/
theorem Grammar.stored (h : Registered p) (hg : Grammar p args blocks)
    (hspares : p.addHelp = true → SparesHelp p blocks) :
    Stored p ((p.prepare argv₀ stale).store blocks) blocks where
  isSet := by
    intro n
    by_cases hn : p.addHelp = true ∧ IsHelp n
    · obtain ⟨hhelp, hname⟩ := hn
      have hclear := (isSet_help argv₀ stale h hhelp hname blocks).2 (hg.no_help hhelp)
      rw [hclear]
      refine iff_of_false Bool.false_ne_true ?_
      rintro ⟨b, hb, a, hhead, ha⟩
      exact hspares hhelp b hb n hname (ha.trans hhead.symm)
    · exact hg.isSet_kept argv₀ stale h hn
  values := fun n a ha => hg.values argv₀ stale h ha
  getValue := by
    intro n a ha index
    by_cases hn : p.addHelp = true ∧ IsHelp n
    · obtain ⟨hhelp, hname⟩ := hn
      have hnone : p.blocksOf blocks a = [] := by
        refine List.filter_eq_nil_iff.2 fun b hb hhead => ?_
        exact hspares hhelp b hb n hname (ha.trans (of_decide_eq_true hhead).symm)
      rw [ArgumentParser.getValue, store_getArgument,
        (prepare_getArgument_free argv₀ stale h hhelp n).2 hname, Option.bind_some,
        (store_objects _ blocks p.free).2, (prepare_help argv₀ stale hhelp).2,
        hg.blocksOf_free argv₀ stale h hhelp, hnone]
      rfl
    · rw [ArgumentParser.getValue, store_getArgument, prepare_getArgument, if_neg hn, ha,
        Option.bind_some, hg.values argv₀ stale h ha]

/-- A block of an argument with a name for help sets it, and yet that name reads as not set. -/
theorem Grammar.not_stored (h : Registered p) (hg : Grammar p args blocks) (hhelp : p.addHelp = true)
    (hspares : ¬SparesHelp p blocks) : ¬Stored p ((p.prepare argv₀ stale).store blocks) blocks := by
  simp only [SparesHelp, not_forall, not_not] at hspares
  obtain ⟨b, hb, n, hname, hsame⟩ := hspares
  intro hstored
  obtain ⟨a, ha, -⟩ := Option.map_eq_some_iff.1 (hg.spells.complete b hb)
  have hset := (hstored.isSet n).2 ⟨b, hb, a, ha, hsame.trans ha⟩
  have hclear := (isSet_help argv₀ stale h hhelp hname blocks).2 (hg.no_help hhelp)
  rw [hclear] at hset
  cases hset

end Stored

end ParseArgs

/-- One call of `parse_args`: it accepts the grammar, and stores what it accepted. -/
structure ParsesExactly (p : ArgumentParser) (argv₀ : String) (args : List String)
    (stale : Nat → String) : Prop where
  accepts : (p.parseArgs argv₀ args stale).result = some true ↔
    ∃ blocks, Spells p.arity args blocks ∧ (p.addHelp = true → ∀ b ∈ blocks, ¬IsHelp b.head)
  stores : (p.parseArgs argv₀ args stale).result = some true → ∀ blocks, Spells p.arity args blocks →
    Stored p (p.parseArgs argv₀ args stale).parser blocks

/-- RUN (`parse_args`): it accepts the grammar, whatever names the program has registered. -/
theorem parseArgs_accepts {p : ArgumentParser} (h : Registered p) (argv₀ : String)
    (args : List String) (stale : Nat → String) :
    (p.parseArgs argv₀ args stale).result = some true ↔ ∃ blocks, Grammar p args blocks := by
  constructor
  · exact grammar_of_parseArgs argv₀ stale h
  · rintro ⟨blocks, hg⟩
    rw [parseArgs_of_grammar argv₀ stale h hg]

/-- DIVERGES (`parse_args`): after any calls that register arguments it accepts exactly the
    concatenations of blocks. It stores them so that the program reads each under all its names if,
    and only if, help is not offered or no block belongs to an argument with one of its names. -/
theorem parse_args_exact_iff (calls : List Setup) (argv₀ : String) (args : List String)
    (stale : Nat → String) : ParsesExactly (setup calls) argv₀ args stale ↔
      ((setup calls).addHelp = true → ∀ blocks, Grammar (setup calls) args blocks →
        SparesHelp (setup calls) blocks) := by
  have h := Registered.setup calls
  generalize setup calls = p at h ⊢
  constructor
  · intro hexact hhelp blocks hg
    by_contra hspares
    have hstored := hexact.stores ((parseArgs_accepts h argv₀ args stale).2 ⟨blocks, hg⟩) blocks hg.spells
    rw [parseArgs_of_grammar argv₀ stale h hg] at hstored
    exact hg.not_stored argv₀ stale h hhelp hspares hstored
  · intro hspares
    refine ⟨?_, fun hr blocks hspells => ?_⟩
    · rw [parseArgs_accepts h]
      exact exists_congr fun blocks => ⟨fun hg => ⟨hg.spells, hg.no_help⟩, fun hg => ⟨hg.1, hg.2⟩⟩
    · obtain ⟨bs, hg⟩ := (parseArgs_accepts h argv₀ args stale).1 hr
      obtain rfl := hg.spells.unique hspells
      rw [parseArgs_of_grammar argv₀ stale h hg]
      exact hg.stored argv₀ stale h fun hhelp => hspares hhelp bs hg

/-- `parser.add_argument("-h", "--host").nargs(1)` with `--host db`: accepted, and `-h` is not set. -/
theorem host_taken_for_help :
    ¬ParsesExactly (setup [.addArgument ⟨["-h", "--host"], by simp⟩ fun _ => "-h", .nargs 0 1])
      "prog" ["--host", "db"] fun _ => "-h" := by
  let calls : List Setup := [.addArgument ⟨["-h", "--host"], by simp⟩ fun _ => "-h", .nargs 0 1]
  have h := Registered.setup calls
  have hg : Grammar (setup calls) ["--host", "db"] [⟨"--host", ["db"]⟩] :=
    ⟨⟨by decide, rfl⟩, fun _ => by decide⟩
  have hspares : ¬SparesHelp (setup calls) [⟨"--host", ["db"]⟩] := fun hall =>
    hall ⟨"--host", ["db"]⟩ (by simp) "-h" (by decide) (by decide)
  intro hexact
  have haccepted := (parseArgs_accepts h "prog" ["--host", "db"] fun _ => "-h").2 ⟨_, hg⟩
  have hstored := hexact.stores haccepted _ hg.spells
  rw [parseArgs_of_grammar _ _ h hg] at hstored
  exact hg.not_stored _ _ h rfl hspares hstored

end ArgumentParser
end Contest
