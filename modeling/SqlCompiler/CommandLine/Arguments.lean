import SqlCompiler.Text.Scan
/-!
# Command line arguments

Options in long and short spelling, with values attached or in the next argument, and words. An
option may be given once. Two hyphens alone end the options.
-/

namespace SqlCompiler.CommandLine

structure OptionSpec where
  long : String
  short : Option Char := none
  takesValue : Bool := true

structure Arguments where
  options : List (String × String) := []
  words : List String := []

namespace Arguments

def value? (a : Arguments) (name : String) : Option String :=
  (a.options.find? fun (other, _) => other = name).map Prod.snd

def has (a : Arguments) (name : String) : Bool :=
  (a.value? name).isSome

def add? (a : Arguments) (name value : String) : Option Arguments :=
  if a.has name then none else some { a with options := a.options ++ [(name, value)] }

end Arguments

/-- Whether an argument can be the value of the option before it. -/
def isValue (argument : String) : Bool :=
  argument = "-" || !(argument.toList.head? = some '-')

/-- The options of a cluster of short ones, and the name of a last one that waits for its value. -/
def shortCluster? (specs : List OptionSpec) (a : Arguments) :
    List Char → Option (Arguments × Option String)
  | [] => some (a, none)
  | c :: rest =>
    match specs.find? fun spec => spec.short = some c with
    | none => none
    | some spec =>
      if spec.takesValue then
        match rest with
        | [] => if a.has spec.long then none else some (a, some spec.long)
        | '=' :: value => (a.add? spec.long (String.ofList value)).map fun a => (a, none)
        | value => (a.add? spec.long (String.ofList value)).map fun a => (a, none)
      else (a.add? spec.long "").bind fun a => shortCluster? specs a rest

/-- A long option, and its name if it waits for its value. -/
def longOption? (specs : List OptionSpec) (a : Arguments) (text : List Char) :
    Option (Arguments × Option String) :=
  let name := String.ofList (text.takeWhile (· ≠ '='))
  match specs.find? fun spec => spec.long = name, text.dropWhile (· ≠ '=') with
  | none, _ => none
  | some spec, [] =>
    if spec.takesValue then if a.has name then none else some (a, some name)
    else (a.add? name "").map fun a => (a, none)
  | some spec, _ :: value =>
    if spec.takesValue then (a.add? name (String.ofList value)).map fun a => (a, none) else none

/-- One argument that is an option. -/
def option? (specs : List OptionSpec) (a : Arguments) (argument : String) :
    Option (Arguments × Option String) :=
  match argument.toList with
  | '-' :: '-' :: text => longOption? specs a text
  | '-' :: cluster => shortCluster? specs a cluster
  | _ => none

/-- Reads arguments, up to the first word if `untilWord`; what is left is the second part of the
result. None if the arguments are not used as they should be. -/
def readArguments? (specs : List OptionSpec) (untilWord : Bool) (a : Arguments) :
    List String → Option (Arguments × List String)
  | [] => some (a, [])
  | argument :: rest =>
    if argument = "--" then
      if untilWord then none else some ({ a with words := a.words ++ rest }, [])
    else if isValue argument then
      if untilWord then some (a, argument :: rest)
      else readArguments? specs untilWord { a with words := a.words ++ [argument] } rest
    else
      match option? specs a argument with
      | none => none
      | some (a, none) => readArguments? specs untilWord a rest
      | some (a, some name) =>
        match rest with
        | [] => none
        | value :: rest =>
          if isValue value then
            (a.add? name value).bind fun a => readArguments? specs untilWord a rest
          else none

end SqlCompiler.CommandLine
