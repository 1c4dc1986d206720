/-!
# Options on a command line

How arguments split into options, their values and positional arguments. Options may
stand anywhere before a lone `--`. A value is the next argument, unless it begins
with a hyphen, or is attached: behind `=`, or to a single letter directly.
-/
namespace Tabular.Command

/-- What an option takes. -/
inductive Arity
  | flag
  | one
  | many
  | list
  deriving DecidableEq

/-- An option with its long name, or only its letter, and what it takes. -/
structure OptionKind where
  name : String
  letter? : Option Char := none
  arity : Arity := .one
  deriving DecidableEq

/-- Why arguments are not taken. -/
inductive Halt
  | usage
  | version
  deriving DecidableEq

def versionOption : OptionKind := { name := "version", letter? := some 'V', arity := .flag }

/-- What was found so far: options with their values, in order, and positional
arguments. -/
structure Matches where
  options : List (String × String) := []
  positional : List String := []

namespace Matches

/-- The values of an option, in order. -/
def values (found : Matches) (name : String) : List String :=
  (found.options.filter fun o => o.1 == name).map Prod.snd

def value? (found : Matches) (name : String) : Option String := (found.values name).head?

def has (found : Matches) (name : String) : Bool := !(found.values name).isEmpty

/-- An option met with a value. Flags and options of one value come once; a list is
cut at its commas. -/
def add (found : Matches) (option : OptionKind) (value : String) : Except Halt Matches :=
  if option = versionOption then .error .version
  else
    let values := if option.arity = .list then value.splitOn "," else [value]
    if (option.arity = .flag ∨ option.arity = .one) ∧ found.has option.name then .error .usage
    else .ok { found with options := found.options ++ values.map fun v => (option.name, v) }

end Matches

/-- Letters behind one hyphen. Flags may be run together; the first option that
takes a value takes the rest as one, or waits for the next argument. -/
def readLetters (options : List OptionKind) :
    List Char → Matches → Except Halt (Matches × Option OptionKind)
  | [], found => .ok (found, none)
  | letter :: rest, found =>
    match options.find? fun o => o.letter? == some letter with
    | none => .error .usage
    | some option =>
      if option.arity = .flag then
        match found.add option "" with
        | .ok found => readLetters options rest found
        | .error halt => .error halt
      else
        match rest with
        | [] => .ok (found, some option)
        | '=' :: value => (found.add option (String.ofList value)).map fun found => (found, none)
        | value => (found.add option (String.ofList value)).map fun found => (found, none)

/-- A long option, behind two hyphens. -/
def readLong (options : List OptionKind) (cs : List Char) (found : Matches) :
    Except Halt (Matches × Option OptionKind) :=
  let name := cs.takeWhile (· != '=')
  match options.find? fun o => o.name == String.ofList name with
  | none => .error .usage
  | some option =>
    match cs.drop name.length with
    | _ :: value =>
      if option.arity = .flag then .error .usage
      else (found.add option (String.ofList value)).map fun found => (found, none)
    | [] =>
      if option.arity = .flag then (found.add option "").map fun found => (found, none)
      else .ok (found, some option)

/-- One argument that is an option, a cluster of letters or positional. The answer
holds an option that waits for its value. -/
def readArgument (options : List OptionKind) (argument : String) (found : Matches) :
    Except Halt (Matches × Option OptionKind) :=
  match argument.toList with
  | '-' :: '-' :: cs => readLong options cs found
  | '-' :: c :: cs => readLetters options (c :: cs) found
  | _ => .ok ({ found with positional := found.positional ++ [argument] }, none)

def isOption (argument : String) : Bool :=
  match argument.toList with
  | '-' :: _ :: _ => true
  | _ => false

/-- Arguments from left to right, `waiting` being an option without its value. -/
def readArguments (options : List OptionKind) :
    List String → Option OptionKind → Matches → Except Halt Matches
  | [], none, found => .ok found
  | [], some _, _ => .error .usage
  | argument :: rest, some option, found =>
    if isOption argument then .error .usage
    else
      match found.add option argument with
      | .ok found => readArguments options rest none found
      | .error halt => .error halt
  | argument :: rest, none, found =>
    if argument = "--" then .ok { found with positional := found.positional ++ rest }
    else
      match readArgument options argument found with
      | .ok (found, waiting) => readArguments options rest waiting found
      | .error halt => .error halt

/-- Leading flags, up to the first argument that is not an option. -/
def readFlags (options : List OptionKind) :
    List String → Matches → Except Halt (Matches × List String)
  | [], found => .ok (found, [])
  | argument :: rest, found =>
    if isOption argument then
      if argument = "--" then .error .usage
      else
        match readArgument options argument found with
        | .ok (found, _) => readFlags options rest found
        | .error halt => .error halt
    else .ok (found, argument :: rest)

end Tabular.Command
