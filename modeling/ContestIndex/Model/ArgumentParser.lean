import Mathlib.Logic.Function.Basic
import Mathlib.Data.List.Basic

/-! @src common/argument_parser.cc | name:The command line parser | layer:model

    The parser and the arguments it created, which live at addresses. A character of a string stands
    for a `char`. The names of an argument come in a `std::list`, which `addArgument` empties from the
    front while it still holds a reference to the first node:

        s ─▶ [ "-t" ]   [ "--test" ]   …       arg_list_, arguments_      read through s
        s ─▶  freed     [ "--test" ]   …       alternative_args_[s]       read through s -/

namespace Contest

/-- The address of an `Argument`. -/
abbrev ArgumentPtr := Nat

/-- What an argument was registered with, and what parsing stores in it. -/
structure Argument where
  nargs : Nat
  required : Bool
  help : String
  metavar : String
  set : Bool
  /-- the strings of `values_` -/
  values : List String
  deriving DecidableEq

namespace Argument

/-- `Argument::Argument` -/
def new : Argument :=
  { nargs := 0, required := false, help := "test", metavar := "", set := false, values := [] }

/-- `Argument::add_value` -/
def addValue (a : Argument) (value : String) : Argument := { a with values := a.values ++ [value] }

end Argument

structure ArgumentParser where
  /-- the objects that `new Argument()` made, by their address -/
  objects : ArgumentPtr → Argument
  /-- the next free address -/
  free : Nat
  /-- `arguments_` -/
  arguments : String → Option ArgumentPtr
  /-- `alternative_args_`, which is only read with `operator[]`: a missing entry is an empty list -/
  alternativeArgs : String → List String
  /-- `arg_list_` -/
  argList : List String
  indent : String
  padding : UInt32
  prolog : String
  description : String
  epilog : String
  addHelp : Bool
  prog : String
  usage : String

/-- The names of an argument. There is one at least, since the first is read without a test. -/
abbrev Names := { names : List String // names ≠ [] }

namespace ArgumentParser

/-- `ArgumentParser::ArgumentParser` -/
def new : ArgumentParser :=
  { objects := fun _ => Argument.new, free := 0, arguments := fun _ => none,
    alternativeArgs := fun _ => [], argList := [], indent := "\t", padding := 50, prolog := "",
    description := "", epilog := "", addHelp := true, prog := "", usage := "" }

/-- `ArgumentParser::get_argument` -/
def getArgument (p : ArgumentParser) (name : String) : Option ArgumentPtr := p.arguments name

/-- Change the object at `a`. -/
def modify (p : ArgumentParser) (a : ArgumentPtr) (f : Argument → Argument) : ArgumentParser :=
  { p with objects := Function.update p.objects a (f (p.objects a)) }

/-- `arguments_[name] = argument` -/
def bindName (p : ArgumentParser) (name : String) (argument : ArgumentPtr) : ArgumentParser :=
  { p with arguments := Function.update p.arguments name (some argument) }

/-- `alternative_args_[key].push_back(name)` -/
def pushAlternative (p : ArgumentParser) (key name : String) : ArgumentParser :=
  { p with alternativeArgs :=
      Function.update p.alternativeArgs key (p.alternativeArgs key ++ [name]) }

/-! ### Registering an argument -/

/-- The string of the node at address `s`, if the list still has that node. -/
def readNode (nodes : List (String × Nat)) (s : Nat) : Option String :=
  (nodes.find? (·.2 = s)).map (·.1)

/-- What `add_argument` leaves: the parser, the new argument, and for each read of `s` in the loop
    whether `s` still referred to a node of the list. -/
structure Added where
  parser : ArgumentParser
  argument : ArgumentPtr
  reads : List Bool

/-- The loop of `add_argument`. A read of `s` after its node has gone gives whatever is in that memory,
    the string `stale` for the node that is at the front then. -/
def addAlternatives (s : Nat) (argument : ArgumentPtr) (stale : Nat → String) :
    List (String × Nat) → ArgumentParser → ArgumentParser × List Bool
  | [], p => (p, [])
  | front :: rest, p =>
    let found := readNode (front :: rest) s
    let p := p.pushAlternative (found.getD (stale front.2)) front.1
    let p := p.bindName front.1 argument
    let result := addAlternatives s argument stale rest p
    (result.1, found.isSome :: result.2)

/-- `ArgumentParser::add_argument` with a list of names -/
def addArgument (p : ArgumentParser) (names : Names) (stale : Nat → String) : Added :=
  let argument := p.free
  let p := { p with objects := Function.update p.objects argument Argument.new, free := p.free + 1 }
  let s := names.1.head names.2
  let p := { p with argList := p.argList ++ [s] }
  let p := p.bindName s argument
  -- the nodes of the list by address; `s` is a reference to node 0, which `pop_front` frees
  let result := p.addAlternatives 0 argument stale names.1.zipIdx.tail
  { parser := result.1, argument := argument, reads := result.2 }

/-- `add_argument(name, alternative_name)` -/
def addArgument₂ (p : ArgumentParser) (name alternative : String) (stale : Nat → String) : Added :=
  p.addArgument ⟨[name, alternative], by simp⟩ stale

/-- What a program does with a parser before it parses. -/
inductive Setup where
  | addArgument (names : Names) (stale : Nat → String)
  | nargs (a : ArgumentPtr) (nargs : Nat)
  | required (a : ArgumentPtr) (required : Bool)
  | help (a : ArgumentPtr) (help : String)
  | metavar (a : ArgumentPtr) (metavar : String)
  | description (description : String)
  | prolog (prolog : String)
  | epilog (epilog : String)
  | addHelp (addHelp : Bool)
  | prog (prog : String)
  | usage (usage : String)
  | indent (indent : String)
  | padding (padding : UInt32)

def step (p : ArgumentParser) : Setup → ArgumentParser
  | .addArgument names stale => (p.addArgument names stale).parser
  | .nargs a nargs => p.modify a ({ · with nargs := nargs })
  | .required a required => p.modify a ({ · with required := required })
  | .help a help => p.modify a ({ · with help := help })
  | .metavar a metavar => p.modify a ({ · with metavar := metavar })
  | .description description => { p with description := description }
  | .prolog prolog => { p with prolog := prolog }
  | .epilog epilog => { p with epilog := epilog }
  | .addHelp addHelp => { p with addHelp := addHelp }
  | .prog prog => { p with prog := prog }
  | .usage usage => { p with usage := usage }
  | .indent indent => { p with indent := indent }
  | .padding padding => { p with padding := padding }

/-- The parser after some calls. -/
def setup (calls : List Setup) : ArgumentParser := calls.foldl step new

/-! ### Help texts -/

/-- ` <metavar>`, or nothing for an argument without one. -/
def metavarPart (arg : Argument) : String := if arg.metavar ≠ "" then " " ++ arg.metavar else ""

/-- `ArgumentParser::usage_string` -/
def usageString (p : ArgumentParser) : String :=
  if p.usage ≠ "" then p.usage
  else p.argList.foldl (fun result name => match p.arguments name with
    | some a =>
      let arg := p.objects a
      result ++ " " ++ (if arg.required then "" else "[") ++ name ++ metavarPart arg ++
        (if arg.required then "" else "]")
    | none => result) p.prog

/-- The names of an argument as `option_string` joins them. -/
def joinedNames (p : ArgumentParser) (argument : String) (arg : Argument) : String :=
  (p.alternativeArgs argument).foldl (fun result name => result ++ ", " ++ name ++ metavarPart arg)
    (argument ++ metavarPart arg)

/-- `std::string::max_size()`, 2⁶³ - 1: no string is longer, and a stream drops what it cannot hold. -/
def maxSize : Nat := 9223372036854775807

/-- `std::string(count, ' ')`, or `none` where it throws `std::length_error`. -/
def blanks (count : UInt64) : Option String :=
  if count.toNat ≤ maxSize then some (String.ofList (List.replicate count.toNat ' ')) else none

/-- `ArgumentParser::option_string`. The length is a `size_t`, and so is the difference. -/
def optionString (p : ArgumentParser) (argument : String) : Option String :=
  match p.getArgument argument with
  | none => some ""
  | some a =>
    let arg := p.objects a
    let result := p.joinedNames argument arg
    (blanks (p.padding.toUInt64 - UInt64.ofNat (min result.length maxSize))).map fun padding =>
      result ++ padding ++ arg.help

/-- The lines of the options section, or `none` if one of them throws. -/
def optionLines (p : ArgumentParser) : List String → Option String
  | [] => some ""
  | name :: names => do
    let option ← p.optionString name
    let rest ← p.optionLines names
    return p.indent ++ option ++ "\n" ++ rest

/-- A paragraph of the help text, left out when it is empty. -/
def paragraph (text newlines : String) : String := if text ≠ "" then text ++ newlines else ""

/-- `ArgumentParser::help_string` -/
def helpString (p : ArgumentParser) : Option String :=
  (p.optionLines p.argList).map fun options =>
    paragraph p.description "\n\n" ++ "Usage:\n" ++ p.indent ++ p.usageString ++ "\n" ++
      paragraph p.prolog "\n" ++ "\nOptions:\n" ++ options ++ paragraph p.epilog "\n"

/-! ### Parsing -/

/-- `ArgumentParser::is_set` -/
def isSet (p : ArgumentParser) (name : String) : Bool :=
  match p.getArgument name with
  | none => false
  | some a => (p.objects a).set

/-- `ArgumentParser::get_value`: `none` is NULL, or a read past the end of `values_`. -/
def getValue (p : ArgumentParser) (name : String) (index : Nat) : Option String :=
  (p.getArgument name).bind fun a => (p.objects a).values[index]?

/-- The inner loop of `parse_args`: the argument at `a` takes `j` more strings. Gives the strings that
    are left, or `none` if there were not enough. -/
def takeValues (p : ArgumentParser) (a : ArgumentPtr) : Nat → List String →
    ArgumentParser × Option (List String)
  | 0, args => (p, some args)
  | _ + 1, [] => (p, none)
  | j + 1, arg :: args => (p.modify a (·.addValue arg)).takeValues a j args

def requiresMessage (arg : String) (nargs : Nat) : String :=
  "Option '" ++ arg ++ "' requires " ++ nargs.repr ++
    (if nargs = 1 then " argument." else " arguments.") ++ "\n"

def unknownMessage (arg : String) : String := "Unknown option '" ++ arg ++ "'.\n"

theorem takeValues_length {p q : ArgumentParser} {a : ArgumentPtr} {j : Nat} {args rest : List String}
    (h : p.takeValues a j args = (q, some rest)) : rest.length ≤ args.length := by
  induction j generalizing p args with
  | zero =>
    obtain ⟨-, rfl⟩ : p = q ∧ args = rest := by simpa [takeValues] using h
    exact Nat.le_refl _
  | succ j ih =>
    cases args with
    | nil => simp [takeValues] at h
    | cons arg args => exact Nat.le_trans (ih h) (Nat.le_succ _)

/-- The loop of `parse_args` over the strings that are left. Gives the message of a failed parse. -/
def parseLoop (p : ArgumentParser) : List String → ArgumentParser × Option String
  | [] => (p, none)
  | arg :: args =>
    match p.getArgument arg with
    | some a =>
      match h : (p.modify a ({ · with set := true })).takeValues a (p.objects a).nargs args with
      | (q, some rest) =>
        have : rest.length ≤ args.length := takeValues_length h
        q.parseLoop rest
      | (q, none) => (q, some (requiresMessage arg (p.objects a).nargs))
    | none => (p, some (unknownMessage arg))
  termination_by args => args.length
  decreasing_by simp only [List.length_cons]; omega

/-- What `parse_args` leaves: its result, or `none` where it throws, and what it wrote. -/
structure Parsed where
  parser : ArgumentParser
  result : Option Bool
  out : String
  err : String

/-- The part of `parse_args` before its loop. -/
def prepare (p : ArgumentParser) (argv₀ : String) (stale : Nat → String) : ArgumentParser :=
  let p := if p.prog ≠ "" then { p with prog := argv₀ } else p
  if p.addHelp then
    let added := p.addArgument₂ "-h" "--help" stale
    added.parser.modify added.argument ({ · with help := "Display this message" })
  else p

/-- `ArgumentParser::parse_args` with `argv[0]` and the strings after it -/
def parseArgs (p : ArgumentParser) (argv₀ : String) (args : List String) (stale : Nat → String) :
    Parsed :=
  match (p.prepare argv₀ stale).parseLoop args with
  | (q, some message) => { parser := q, result := some false, out := "", err := message }
  | (q, none) =>
    if q.isSet "-h" && q.addHelp then
      match q.helpString with
      | some help => { parser := q, result := some false, out := help ++ "\n", err := "" }
      | none => { parser := q, result := none, out := "", err := "" }
    else { parser := q, result := some true, out := "", err := "" }

end ArgumentParser
end Contest
