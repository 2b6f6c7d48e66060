/-!
# Arguments of a program

An argument that starts with a dash is an option. The value of an option stands behind an equals
sign or else is the next argument, whatever that looks like. Flags have no value; one-letter flags
may share a dash. Two dashes alone end the options, and a dash alone is an operand.

Results:
* `OptionTable.read_of_operands`: arguments without dashes are operands.
-/

namespace LuaCoverage.CommandLine

/-- What is wrong with a path that was given. -/
inductive PathFault
  | absent
  | isFile
  | isDirectory
  deriving DecidableEq, Repr

/-- What is wrong with arguments. -/
inductive UsageError
  | noCommand
  | unknownCommand (name : String)
  | unknownOption (name : String)
  | noValue (option : String)
  | unwantedValue (option : String)
  | missing (what : String)
  | surplus (argument : String)
  | notNumber (option text : String)
  | path (what text : String) (fault : PathFault)
  deriving DecidableEq, Repr

def PathFault.message : PathFault → String
  | .absent => "does not exist"
  | .isFile => "is a file"
  | .isDirectory => "is a directory"

def UsageError.message : UsageError → String
  | .noCommand => "Missing command."
  | .unknownCommand name => "No such command '" ++ name ++ "'."
  | .unknownOption name => "No such option: " ++ name
  | .noValue option => "Option '" ++ option ++ "' requires an argument."
  | .unwantedValue option => "Option '" ++ option ++ "' does not take a value."
  | .missing what => "Missing '" ++ what ++ "'."
  | .surplus argument => "Got unexpected extra argument (" ++ argument ++ ")"
  | .notNumber option text =>
    "Invalid value for '" ++ option ++ "': '" ++ text ++ "' is not a number from 0 on."
  | .path what text fault =>
    "Invalid value for '" ++ what ++ "': Path '" ++ text ++ "' " ++ fault.message ++ "."

/-- The options of a command: flags, options with a value, and one-letter names of flags. -/
structure OptionTable where
  flags : List String
  values : List String
  letters : List (Char × String)
  deriving Repr

/-- What an option says: that flags are set, or which option is given a value, unless that is the
next argument. -/
inductive OptionReading
  | flags (names : List String)
  | value (name : String) (given : Option String)
  deriving DecidableEq, Repr

/-- Arguments in order: the options, each with its value if it has one, and the operands. -/
structure Arguments where
  options : List (String × Option String)
  operands : List String
  deriving DecidableEq, Repr

namespace Arguments

def ofOperands (operands : List String) : Arguments := ⟨[], operands⟩

def withFlags (names : List String) (a : Arguments) : Arguments :=
  { a with options := names.map (fun name => (name, none)) ++ a.options }

/-- Arguments behind an option with a value. -/
def withValue (name value : String) (a : Arguments) : Arguments :=
  { a with options := (name, some value) :: a.options }

def withOperand (operand : String) (a : Arguments) : Arguments :=
  { a with operands := operand :: a.operands }

def has (a : Arguments) (name : String) : Bool := a.options.any fun option => option.1 == name

def values (a : Arguments) (name : String) : List String :=
  a.options.filterMap fun option => if option.1 = name then option.2 else none

/-- The value of an option; the last one counts. -/
def value? (a : Arguments) (name : String) : Option String := (a.values name).getLast?

/-- The first of some flags that is set. -/
def first? (a : Arguments) (names : List String) : Option String :=
  (a.options.map (·.1)).find? names.contains

/-- The last of some flags that is set. -/
def last? (a : Arguments) (names : List String) : Option String :=
  (a.options.map (·.1)).reverse.find? names.contains

end Arguments

/-- Whether an argument is an option, or ends the options. -/
def isOption (argument : String) : Bool :=
  match argument.toList with
  | '-' :: _ :: _ => true
  | _ => false

namespace OptionTable

def readOption (t : OptionTable) (argument : String) : Except UsageError OptionReading :=
  let chars := argument.toList
  let name := String.ofList (chars.takeWhile (· ≠ '='))
  let given := if chars.contains '=' then some (String.ofList ((chars.dropWhile (· ≠ '=')).drop 1))
    else none
  if t.values.contains name then .ok (.value name given)
  else if t.flags.contains name then
    if given.isSome then .error (.unwantedValue name) else .ok (.flags [name])
  else if chars.take 2 = ['-', '-'] then .error (.unknownOption name)
  else
    match (chars.drop 1).mapM fun c => t.letters.lookup c with
    | some names => .ok (.flags names)
    | none => .error (.unknownOption argument)

/-- Reads arguments. Unless options may stand behind operands, the first operand ends them. -/
def read (t : OptionTable) (mixed : Bool) : List String → Except UsageError Arguments
  | [] => .ok (.ofOperands [])
  | argument :: rest =>
    if argument = "--" then .ok (.ofOperands rest)
    else if isOption argument then
      match t.readOption argument with
      | .error e => .error e
      | .ok (.flags names) => (t.read mixed rest).map (Arguments.withFlags names)
      | .ok (.value name (some value)) => (t.read mixed rest).map (Arguments.withValue name value)
      | .ok (.value name none) =>
        match rest with
        | [] => .error (.noValue name)
        | value :: rest => (t.read mixed rest).map (Arguments.withValue name value)
    else if mixed then (t.read mixed rest).map (Arguments.withOperand argument)
    else .ok (.ofOperands (argument :: rest))

theorem read_of_operands (t : OptionTable) {arguments : List String}
    (h : ∀ a ∈ arguments, isOption a = false) :
    t.read true arguments = .ok (.ofOperands arguments) := by
  induction arguments with
  | nil => rfl
  | cons a rest ih =>
    have ha : isOption a = false := h a (by simp)
    have hd : a ≠ "--" := by
      intro he
      subst he
      exact absurd ha (by decide)
    have hr := ih fun b hb => h b (by simp [hb])
    unfold read
    simp [hd, ha, hr, Except.map, Arguments.withOperand, Arguments.ofOperands]

end OptionTable

end LuaCoverage.CommandLine
