import StyleAudit.Command.Arguments
import StyleAudit.Report.Json
import StyleAudit.Report.Text
import StyleAudit.Schedule.Listen

/-! # Running a command

* **`parseCommand`** — the settings that the command line asks for.
* **`Outcome`** — what a command writes, and how it ends.
* **`listen`** — audits once and again for each line of input.
* **`run`** — runs a command. -/

namespace StyleAudit.Command

open Project Report

/-- Whether a list of words names a command that help can be shown for. -/
def isTopic : List String → Bool
  | [] => true
  | [word] => word == "unused" || word == "help"
  | _ => false

/-- The settings that the command line asks for. The only command is `unused`. -/
def parseCommand : List String → Except UsageError Settings
  | [] => .error .missingCommand
  | word :: rest =>
      if word = "unused" then parseSettings rest
      else if word = "help" then
        .error (if isTopic rest then .displayHelp else .unknownCommand)
      else match word.toList with
        | '-' :: 'h' :: _ => .error .displayHelp
        | '-' :: '-' :: 'h' :: 'e' :: 'l' :: 'p' :: [] => .error .displayHelp
        | '-' :: '-' :: [] => .error (if rest.isEmpty then .missingCommand else .unknownArgument)
        | '-' :: _ => .error .unknownArgument
        | _ => .error .unknownCommand

/-- The exit code for arguments that cannot be used. Asking for help is no failure. -/
def UsageError.exitCode : UsageError → Nat
  | .displayHelp => 0
  | _ => 2

/-- What a command writes, and how it ends. -/
structure Outcome where
  exitCode : Nat
  output : String
  /-- Why an audit failed. -/
  error : Option AuditError
  workspace : Workspace

/-- Whatever else surrounds a command. -/
structure Surroundings where
  workspace : Workspace
  /-- For each line of the input, whether it is a text. -/
  input : List Bool
  colors : Bool
  effort : Effort

/-- Audits once and again for each line of input: the results. `later` are the files at each line;
there are none if the line is no text. -/
def listen (s : Settings) (w : Workspace) (later : List (Option Workspace)) :
    Except AuditError (List CheckResult) :=
  match s.prepare w with
  | .error e => .error e
  | .ok s =>
      if later.all Option.isSome then
        .ok (Schedule.Listener.serve (rescan s w .never)
          (later.filterMap id |>.map fun w => rescan s w .never))
      else .error .input

/-- How the paths of a result are shown. -/
def displayFor (s : Settings) (w : Workspace) (colors : Bool) : Display :=
  let root := match s.prepare w with
    | .ok s => s.root
    | .error _ => s.root
  ⟨colors, w.here, root, s.dryRun⟩

/-- The result of an audit in the format that was asked for. -/
def resultText (s : Settings) (env : Surroundings) (w : Workspace) (r : CheckResult) : String :=
  match s.format with
  | .json => jsonText r
  | .text => reportText (displayFor s w env.colors) s.fix env.effort r

/-- Runs an audit. It ends with a failure if findings are left. -/
def audit (s : Settings) (env : Surroundings) : Outcome :=
  match check s env.workspace with
  | (w, .error e) => ⟨1, "", some e, w⟩
  | (w, .ok r) => ⟨if r.findings.isEmpty then 0 else 1, resultText s env w r, none, w⟩

/-- Runs a command. -/
def run (arguments : List String) (env : Surroundings) : Outcome :=
  match parseCommand arguments with
  | .error e => ⟨e.exitCode, "", none, env.workspace⟩
  | .ok s =>
      if s.listen then
        let later := env.input.map fun isText => if isText then some env.workspace else none
        match listen s env.workspace later with
        | .error e => ⟨1, "", some e, env.workspace⟩
        | .ok results => ⟨0, String.join (results.map jsonLine), none, env.workspace⟩
      else audit s env

end StyleAudit.Command
