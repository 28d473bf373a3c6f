/-
The arguments of the command line: a command, its options and what they say. An option is given at most once, as
two arguments or as one with an equals sign; after a double dash no argument is an option.
-/
import EffectTyping.Typing.Check

namespace EffectTyping

/-- How a verdict is shown. -/
inductive Format where
  | pretty
  | json
  deriving DecidableEq, Repr

/-- What is to be done. Types are given directly or by the name of a file. -/
inductive Command where
  | check (file : String) (env : Option String) (config : Config) (format : Format)
  | unify (left right : String)
  | compat (general specific : String)
  | show (file : String)
  deriving DecidableEq, Repr

namespace Command

/-! ## Splitting arguments -/

/-- Arguments sorted into flags, options with values, and others. -/
structure Args where
  flags : List String
  options : List (String × String)
  positionals : List String

/-- The flag every command takes; what it asks for is not part of the answer. -/
def verboseFlag : String := "verbose"

/-- Is the argument an option, or the end of the options? A single dash is neither. -/
def isOption (arg : String) : Bool :=
  match arg.toList with
  | '-' :: _ :: _ => true
  | _ => false

/-- The name of a long option, with the value after an equals sign. -/
def splitLong (chars : List Char) : String × Option String :=
  let name := String.ofList (chars.takeWhile (· ≠ '='))
  match chars.dropWhile (· ≠ '=') with
  | _ :: value => (name, some (String.ofList value))
  | [] => (name, none)

/-- Sorts arguments, given the names of the options with values and of the flags; none if an option is not known,
has no value or has one it does not take. -/
def scanArgs (options flags : List String) : List String → Option Args
  | [] => some ⟨[], [], []⟩
  | arg :: rest =>
    match arg.toList with
    | ['-', '-'] => some ⟨[], [], rest⟩
    | '-' :: '-' :: chars =>
      match splitLong chars with
      | (name, some value) =>
        if name ∈ options then
          (scanArgs options flags rest).map fun args => { args with options := (name, value) :: args.options }
        else none
      | (name, none) =>
        if name ∈ options then
          match rest with
          | [] => none
          | value :: rest =>
            if isOption value then none
            else
              (scanArgs options flags rest).map fun args => { args with options := (name, value) :: args.options }
        else if name ∈ flags then
          (scanArgs options flags rest).map fun args => { args with flags := name :: args.flags }
        else none
    | '-' :: c :: chars =>
      if (c :: chars).all (· = 'v') then
        (scanArgs options flags rest).map fun args =>
          { args with flags := (c :: chars).map (fun _ => verboseFlag) ++ args.flags }
      else none
    | _ => (scanArgs options flags rest).map fun args => { args with positionals := arg :: args.positionals }

/-- Sorts arguments and makes sure that no option or flag is given twice. -/
def args? (options flags : List String) (arguments : List String) : Option Args := do
  let args ← scanArgs options (verboseFlag :: flags) arguments
  let names := args.flags ++ args.options.map (·.1)
  if names.Nodup then some args else none

/-! ## Values -/

/-- An integer in decimal digits, with or without a sign. -/
def int? (text : String) : Option Int :=
  let value (digits : List Char) : Option Nat :=
    if digits ≠ [] ∧ digits.all (fun c => '0' ≤ c && c ≤ '9') then some (Numeral.ofDigits digits) else none
  match text.toList with
  | '+' :: digits => (value digits).map fun n => (n : Int)
  | '-' :: digits => (value digits).map fun n => -(n : Int)
  | digits => (value digits).map fun n => (n : Int)

/-- A depth limit: an integer of 32 bits without a negative value. -/
def depth? (text : String) : Option Nat :=
  match int? text with
  | some (.ofNat n) => if n < UInt32.size then some n else none
  | _ => none

/-- The name of a file is not empty. -/
def file? (text : String) : Option String := if text.isEmpty then none else some text

def format? : String → Option Format
  | "pretty" => some .pretty
  | "json" => some .json
  | _ => none

/-- The value of an option, read by `read?`; the default if the option is not given. -/
def Args.value? {α : Type} (args : Args) (name : String) (default : α) (read? : String → Option α) : Option α :=
  match args.options.lookup name with
  | none => some default
  | some text => read? text

/-! ## Commands -/

/-- The command with its arguments. -/
def ofName? (name : String) (arguments : List String) : Option Command :=
  match name with
  | "check" => do
    let args ← args? ["env", "max-depth", "format"] ["allow-empty-match"] arguments
    let env ← args.value? "env" none fun text => (file? text).map some
    let maxDepth ← args.value? "max-depth" { : Config }.maxDepth depth?
    let format ← args.value? "format" .pretty format?
    match args.positionals with
    | [file] =>
      (file? file).map fun file =>
        .check file env ⟨maxDepth, !args.flags.contains "allow-empty-match"⟩ format
    | _ => none
  | "unify" => do
    let args ← args? [] [] arguments
    match args.positionals with
    | [left, right] => some (.unify left right)
    | _ => none
  | "compat" => do
    let args ← args? [] [] arguments
    match args.positionals with
    | [general, specific] => some (.compat general specific)
    | _ => none
  | "show" => do
    let args ← args? [] [] arguments
    match args.positionals with
    | [file] => (file? file).map .show
    | _ => none
  | _ => none

/-- The arguments from the name of the command on; before it only the flag that every command takes may stand, and
only once. -/
def fromName? (seen : Bool) : List String → Option (List String)
  | [] => none
  | arg :: rest =>
    if arg = "-v" ∨ arg = "--verbose" then if seen then none else fromName? true rest
    else if isOption arg then none
    else some (arg :: rest)

/-- The command that the arguments ask for, if they do. -/
def ofArgs? (arguments : List String) : Option Command :=
  match fromName? false arguments with
  | some (name :: rest) => ofName? name rest
  | _ => none

end Command

end EffectTyping
