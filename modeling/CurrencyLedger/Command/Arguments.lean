import CurrencyLedger.Number.Decimal

/-!
Arguments of a command: parameters with a value and flags, each with a long name and sometimes a
letter. There are no arguments without a name.
-/

namespace CurrencyLedger.Command

/-- What may stand as the value of a parameter. -/
inductive ValueForm where
  /-- The parameter is a flag and has no value. -/
  | flag
  | text
  /-- A number up to a limit. Zero may have a minus sign if numbers have signs. -/
  | number (limit : Nat) (signed : Bool)

namespace ValueForm

def number? (form : ValueForm) (s : String) : Option Nat :=
  match form, s.toList with
  | number _ true, '-' :: cs => (Decimal.value? cs).filter (· = 0)
  | number limit _, cs => (Decimal.unsigned limit cs).toOption
  | _, _ => none

def accepts : ValueForm → Option String → Bool
  | flag, value => value.isNone
  | text, value => value.isSome
  | number limit signed, value => value.any fun s => ((number limit signed).number? s).isSome

end ValueForm

structure Parameter where
  name : String
  letter : Option Char := none
  form : ValueForm := .text
  repeatable : Bool := false

/-- Why the arguments are no command: they are wrong, or they ask for something else. -/
inductive Refusal where
  | wrong
  | usage
  | version
deriving DecidableEq

/-- The parameters that are given, with their values, in their order. A flag has no value. -/
abbrev Arguments := List (String × Option String)

/-- What one argument says. -/
inductive Word where
  | complete (p : Parameter) (value : Option String)
  /-- A parameter whose value is the next argument. -/
  | awaiting (p : Parameter)
  | help
  | wrong

namespace Word

def ofParameter (p : Parameter) (value : Option String) : Word :=
  match p.form, value with
  | .flag, none => complete p none
  | .flag, some _ => wrong
  | _, some v => complete p (some v)
  | _, none => awaiting p

def afterEquals : List Char → Option String
  | '=' :: value => some (String.ofList value)
  | _ => none

def ofLong (ps : List Parameter) (cs : List Char) : Word :=
  let name := String.ofList (cs.takeWhile (· != '='))
  let value := afterEquals (cs.dropWhile (· != '='))
  if name = "help" ∧ value = none then help
  else
    match ps.find? fun p => p.name = name with
    | some p => ofParameter p value
    | none => wrong

/-- The value of a letter may stand right behind it, or behind an equals sign. -/
def ofLetter (ps : List Parameter) (c : Char) (rest : List Char) : Word :=
  if c = 'h' then help
  else
    match ps.find? fun p => p.letter = some c with
    | some p =>
      match rest with
      | [] => ofParameter p none
      | '=' :: value => ofParameter p (some (String.ofList value))
      | value => ofParameter p (some (String.ofList value))
    | none => wrong

def ofArgument (ps : List Parameter) (arg : String) : Word :=
  match arg.toList with
  | '-' :: '-' :: cs => ofLong ps cs
  | '-' :: c :: rest => ofLetter ps c rest
  | _ => wrong

end Word

namespace Arguments

/-- Holds of an argument that cannot be the value of the parameter in front of it. -/
def isParameter (arg : String) : Bool :=
  match arg.toList with
  | '-' :: _ :: _ => true
  | _ => false

/-- Adds a parameter, which must not be there already unless it is repeatable. -/
def add (given : Arguments) (p : Parameter) (value : Option String) : Except Refusal Arguments :=
  if !p.repeatable && given.any (·.1 == p.name) then .error .wrong
  else if p.form.accepts value then .ok (given ++ [(p.name, value)])
  else .error .wrong

/-- Reads the arguments behind those that are given already. Two dashes may end them. -/
def parseFrom (ps : List Parameter) : Arguments → List String → Except Refusal Arguments
  | given, [] => .ok given
  | given, ["--"] => .ok given
  | given, arg :: rest =>
    match Word.ofArgument ps arg with
    | .wrong => .error .wrong
    | .help => .error .usage
    | .complete p value => do parseFrom ps (← given.add p value) rest
    | .awaiting p =>
      match rest with
      | [] => .error .wrong
      | value :: rest =>
        if isParameter value then .error .wrong
        else do parseFrom ps (← given.add p (some value)) rest

def parse (ps : List Parameter) (args : List String) : Except Refusal Arguments :=
  parseFrom ps [] args

def values (given : Arguments) (name : String) : List String :=
  given.filterMap fun (n, value) => if n = name then value else none

def value? (given : Arguments) (name : String) : Option String :=
  (given.values name).head?

def has (given : Arguments) (name : String) : Bool :=
  given.any (·.1 == name)

def required (given : Arguments) (name : String) : Except Refusal String :=
  match given.value? name with
  | some v => .ok v
  | none => .error .wrong

/-- The number that a parameter is given, or its standard number. -/
def number (given : Arguments) (p : Parameter) (standard : Nat) : Nat :=
  ((given.value? p.name).bind p.form.number?).getD standard

end Arguments

end CurrencyLedger.Command
