import StyleAudit.Project.Settings

/-! # Arguments

The flags and options of an audit on the command line. An option takes its value from the argument
after it or after an equals sign. Arguments are read from left to right; whether they fit together is
looked at when all have been read.

* **`UsageError`** — what is wrong with arguments.
* **`parseSettings`** — the settings that arguments ask for. -/

namespace StyleAudit.Command

open Project

/-- What is wrong with arguments. Asking for help ends the reading in the same way. -/
inductive UsageError where
  | unknownArgument
  /-- An option has no value, or one that it does not take. -/
  | invalidValue
  /-- An argument that stands once is repeated, or two exclude each other. -/
  | argumentConflict
  | missingRequiredArgument
  /-- A flag has a value. -/
  | tooManyValues
  | displayHelp
  /-- No command is given. -/
  | missingCommand
  | unknownCommand
  deriving DecidableEq, Repr

/-- Flags. -/
inductive Flag where
  | fix
  | dryRun
  | listen
  deriving DecidableEq, Repr

/-- Options with a value. -/
inductive Choice where
  | root
  | exclude
  | stylesheet
  | selector
  | format
  deriving DecidableEq, Repr

/-- What an argument begins. -/
inductive Argument where
  | flag (f : Flag)
  | choice (c : Choice)
  | help

/-- The argument of a name after two hyphens. -/
def Argument.ofName? : String → Option Argument
  | "fix" => some (.flag .fix)
  | "dry-run" => some (.flag .dryRun)
  | "listen" => some (.flag .listen)
  | "root" => some (.choice .root)
  | "exclude" => some (.choice .exclude)
  | "stylesheet" => some (.choice .stylesheet)
  | "selector" => some (.choice .selector)
  | "format" => some (.choice .format)
  | "help" => some .help
  | _ => none

/-- What has been read. -/
structure Reading where
  settings : Settings := {}
  /-- The options that stand once and have been given. -/
  given : List Choice := []
  /-- The option that waits for its value, and the value if it has come. -/
  waiting : Option (Choice × Option String) := none
  /-- Whether all further arguments are plain. -/
  plainOnly : Bool := false

namespace Reading

/-- Sets an option that stands once. -/
def once (r : Reading) (c : Choice) (set : Settings → Option Settings) :
    Except UsageError Reading :=
  if r.given.contains c then .error .argumentConflict
  else match set r.settings with
    | some s => .ok { r with settings := s, given := c :: r.given }
    | none => .error .invalidValue

/-- Sets an option. -/
def setChoice (r : Reading) (c : Choice) (value : String) : Except UsageError Reading :=
  let path := if value.isEmpty then none else some (⟨value⟩ : Files.Path)
  match c with
  | .root => r.once c fun s => path.map fun p => { s with root := some p }
  | .stylesheet => r.once c fun s => path.map fun p => { s with stylesheet := some p }
  | .format => r.once c fun s =>
      match value with
      | "text" => some { s with format := .text }
      | "json" => some { s with format := .json }
      | _ => none
  | .exclude => .ok { r with settings.exclude := r.settings.exclude ++ [value] }
  | .selector => .ok { r with settings.selectors := r.settings.selectors ++ [value] }

/-- Sets the option that was waiting for its value. -/
def settle (r : Reading) : Except UsageError Reading :=
  match r.waiting with
  | none => .ok r
  | some (_, none) => .error .invalidValue
  | some (c, some value) => { r with waiting := none }.setChoice c value

/-- Sets a flag. -/
def setFlag (r : Reading) (f : Flag) : Except UsageError Reading :=
  let s := r.settings
  let (already, set) : Bool × Settings := match f with
    | .fix => (s.fix, { s with fix := true })
    | .dryRun => (s.dryRun, { s with dryRun := true })
    | .listen => (s.listen, { s with listen := true })
  if already then .error .argumentConflict else .ok { r with settings := set }

/-- Reads an argument that begins with two hyphens: its name, and its value after an equals sign. -/
def long (r : Reading) (name : String) (value : Option String) : Except UsageError Reading := do
  match Argument.ofName? name, value with
  | none, _ => throw .unknownArgument
  | some (.flag f), none => (← r.settle).setFlag f
  | some .help, none => do
      let _ ← r.settle
      throw .displayHelp
  | some (.choice c), none => return { ← r.settle with waiting := some (c, none) }
  | some (.choice c), some v => (← r.settle).setChoice c v
  | some _, some _ => throw .tooManyValues

/-- Reads an argument that is no flag and no option: the value of the option that waits for one. -/
def plain (r : Reading) (text : String) : Except UsageError Reading :=
  match r.waiting, r.plainOnly with
  | some (c, none), false => .ok { r with waiting := some (c, some text) }
  | _, _ => .error .unknownArgument

/-- Reads an argument. -/
def argument (r : Reading) (text : String) : Except UsageError Reading :=
  if r.plainOnly then r.plain text
  else match text.toList with
    | ['-', '-'] => .ok { r with plainOnly := true }
    | '-' :: '-' :: rest =>
        let name := rest.takeWhile (· != '=')
        let value := match rest.drop name.length with
          | [] => none
          | _ :: v => some (String.ofList v)
        r.long (String.ofList name) value
    | '-' :: 'h' :: _ => r.long "help" none
    | '-' :: _ :: _ => .error .unknownArgument
    | _ => r.plain text

/-- Whether the settings fit together. Removing excludes listening, and planning needs removing;
where listening excludes what is needed, it is not missed. -/
def validate (s : Settings) : Except UsageError Settings :=
  if s.listen && s.fix then .error .argumentConflict
  else if s.dryRun && !s.fix && !s.listen then .error .missingRequiredArgument
  else .ok s

end Reading

/-- The settings that arguments ask for. -/
def parseSettings (arguments : List String) : Except UsageError Settings := do
  let r ← arguments.foldlM Reading.argument {}
  Reading.validate (← r.settle).settings

end StyleAudit.Command
