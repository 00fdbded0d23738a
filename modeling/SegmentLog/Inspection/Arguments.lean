import SegmentLog.Disk.Path
import SegmentLog.Segment.Name

/-!
# Arguments of the inspection tool

The tool is called as

    [-p STEM] list DIRECTORY
    [-p STEM] dump FILE...
    [-p STEM] verify DIRECTORY

The stem may be given as `-p STEM`, `-pSTEM`, `-p=STEM`, `--prefix STEM` or `--prefix=STEM`, once
and before the command. `-V` and `--version` ask for the version, `-h`, `--help` and `help` for
help. After `--` every argument of a command is an operand. Arguments are read from left to
right, and the first that asks for the version or for help, or makes no sense, decides.

* `operands_escaped` — nothing after `--` is an option.
-/

namespace SegmentLog.Inspection

/-- What the tool is to do with segment files. -/
inductive Command where
  | list (directory : Path)
  | dump (files : List Path)
  | verify (directory : Path)
  deriving DecidableEq, Repr

/-- What a call of the tool asks for. -/
inductive Request where
  | version
  | help
  | run (stem : String) (command : Command)
  deriving DecidableEq, Repr

/-- Why the arguments make no sense. -/
inductive UsageError where
  | unexpected (argument : String)
  | missingValue (option : String)
  | missingOperand
  | emptyOperand
  | tooManyOperands (argument : String)
  | missingCommand
  | unknownCommand (word : String)
  | repeated (option : String)
  deriving DecidableEq, Repr

/-- The wording of a usage error. -/
def UsageError.message : UsageError → String
  | .unexpected a => "unexpected argument '" ++ a ++ "'"
  | .missingValue o => "a value is required for '" ++ o ++ "'"
  | .missingOperand => "a required operand is missing"
  | .emptyOperand => "an operand must not be empty"
  | .tooManyOperands a => "unexpected operand '" ++ a ++ "'"
  | .missingCommand => "a command is required: list, dump or verify"
  | .unknownCommand w => "unrecognized command '" ++ w ++ "'"
  | .repeated o => "'" ++ o ++ "' cannot be used multiple times"

/-- What arguments come to: a result, or an early end because help was asked for. -/
inductive Reading (α : Type) where
  | done (a : α)
  | askedHelp
  | refused (e : UsageError)
  deriving Repr

/-- Whether an argument is written like an option. A single dash is an operand. -/
def looksLikeOption (a : String) : Bool :=
  match a.toList with
  | '-' :: _ :: _ => true
  | _ => false

/-- An operand of a command, if there is still room for one. -/
def roomFor (room : Option Nat) (a : String) : Except UsageError (Option Nat) :=
  match room with
  | some 0 => .error (.tooManyOperands a)
  | room => if a.isEmpty then .error .emptyOperand else .ok (room.map (· - 1))

/-- The operands of a command, of which `room` says how many there may be. Whether `--` was
passed is `escaped`. -/
def operands (escaped : Bool) (room : Option Nat) : List String → Reading (List String)
  | [] => .done []
  | a :: rest =>
    if !escaped && a = "--" then operands true room rest
    else if !escaped && looksLikeOption a then
      if a = "--help" || a.toList.take 2 = ['-', 'h'] then .askedHelp
      else .refused (.unexpected a)
    else
      match roomFor room a with
      | .error e => .refused e
      | .ok room =>
        match operands escaped room rest with
        | .done more => .done (a :: more)
        | .askedHelp => .askedHelp
        | .refused e => .refused e

/-- The words of the commands. -/
def commandWords : List String := ["list", "dump", "verify", "help"]

/-- A request for help may name one command. -/
def helpOn : List String → Except UsageError Request
  | [] => .ok .help
  | [w] => if w ∈ commandWords then .ok .help else .error (.unknownCommand w)
  | _ :: w :: _ => .error (.unknownCommand w)

/-- Reads the arguments of a command that takes one directory. -/
def oneDirectory (stem : String) (make : Path → Command) (args : List String) :
    Except UsageError Request :=
  match operands false (some 1) args with
  | .askedHelp => .ok .help
  | .refused e => .error e
  | .done [] => .error .missingOperand
  | .done (d :: _) => .ok (.run stem (make (.ofString d)))

/-- Reads a command with its arguments. -/
def command (stem : String) (word : String) (args : List String) : Except UsageError Request :=
  if word = "list" then oneDirectory stem .list args
  else if word = "verify" then oneDirectory stem .verify args
  else if word = "dump" then
    match operands false none args with
    | .askedHelp => .ok .help
    | .refused e => .error e
    | .done [] => .error .missingOperand
    | .done files => .ok (.run stem (.dump (files.map Path.ofString)))
  else if word = "help" then helpOn args
  else .error (.unknownCommand word)

/-- What a cluster of short options asks for. -/
inductive Short where
  | help
  | version
  /-- The stem stands in the same argument. -/
  | stem (value : String)
  /-- The stem is the next argument. -/
  | stemNext
  | unknown

/-- Reads the first letter of a cluster of short options; none of them can be followed by
another. -/
def short : List Char → Short
  | 'h' :: _ => .help
  | 'V' :: _ => .version
  | ['p'] => .stemNext
  | 'p' :: '=' :: value => .stem (String.ofList value)
  | 'p' :: value => .stem (String.ofList value)
  | _ => .unknown

/-- What the first argument of a call is. -/
inductive Lead where
  | version
  | help
  | stem (value : String)
  | stemNext
  | word (word : String)
  | unexpected

/-- Tells what an argument before the command is. -/
def lead (a : String) : Lead :=
  if a = "--help" then .help
  else if a = "--version" then .version
  else if a = "--prefix" then .stemNext
  else
    match "--prefix=".toList.isPrefixOf? a.toList with
    | some value => .stem (String.ofList value)
    | none =>
      match a.toList with
      | '-' :: '-' :: _ => .unexpected
      | '-' :: c :: more =>
        match short (c :: more) with
        | .help => .help
        | .version => .version
        | .stem value => .stem value
        | .stemNext => .stemNext
        | .unknown => .unexpected
      | _ => .word a

/-- Reads the arguments of a call, of which a stem may have been read already. -/
def readFrom (stem : Option String) : List String → Except UsageError Request
  | [] => .error .missingCommand
  | a :: rest =>
    match lead a with
    | .help => .ok .help
    | .version => .ok .version
    | .unexpected => .error (.unexpected a)
    | .word w => command (stem.getD defaultStem) w rest
    | .stem value =>
      if stem.isSome then .error (.repeated "--prefix") else readFrom (some value) rest
    | .stemNext =>
      match rest with
      | [] => .error (.missingValue "--prefix")
      | value :: rest =>
        if looksLikeOption value then .error (.missingValue "--prefix")
        else if stem.isSome then .error (.repeated "--prefix")
        else readFrom (some value) rest

/-- Reads the arguments of a call. -/
def read (args : List String) : Except UsageError Request := readFrom none args

theorem operands_escaped {room : Option Nat} {a : String} {rest more : List String}
    (ha : roomFor room a = .ok room) (h : operands true room rest = .done more) :
    operands true room (a :: rest) = .done (a :: more) := by
  simp [operands, ha, h]

end SegmentLog.Inspection
