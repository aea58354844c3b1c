import StyleAudit.Command.Run

/-! # The program

Reads the files of a project, runs the command on them, and writes what it tells. All decisions are
made by `Command.run` and `Project.rescan`; here files and lines only come in and go out.

* **`load`** — the files that a command can see.
* **`main`** — the program. -/

namespace StyleAudit.Program

open Files Project Command

/-- The place of an absolute path. -/
def placeOf (path : String) : Location := (path.splitOn "/").filter (!·.isEmpty)

/-- The path of a place. -/
def pathOf (l : Location) : String := (Path.ofLocation l).text

/-- The names in a directory; none if the place is no directory. -/
def readNames (l : Location) : IO (Option (List String)) := do
  let directory ← IO.FS.realPath (pathOf l)
  if ← directory.isDir then return some ((← directory.readDir).toList.map (·.fileName))
  else return none

/-- Adds a file to a tree, if it can be read. -/
def loadFile (t : FileTree) (l : Location) : IO FileTree := do
  try
    return t.make l (.file (.ofBytes (← IO.FS.readBinFile (pathOf l))))
  catch _ => return t

/-- Adds a place and all that lies in it to a tree. -/
partial def loadBelow (t : FileTree) (l : Location) : IO FileTree := do
  match ← readNames l with
  | some names => names.foldlM (fun t n => loadBelow t (l ++ [n])) (t.make l .directory)
  | none => loadFile t l

/-- Adds what the directories around a place tell about ignored files. -/
def loadAround (t : FileTree) (l : Location) : IO FileTree := do
  (beginnings l).foldlM (fun t d => do
    let t := if d.isEmpty then t else t.make d .directory
    match ← readNames d with
    | none => return t
    | some names =>
        let seen := names.filter [".git", ".jj", ".ignore", ".gitignore"].contains
        seen.foldlM (fun t n => do
          let place := d ++ [n]
          if (← readNames place).isSome then
            loadFile (t.make place .directory) (place ++ ["info", "exclude"])
          else loadFile t place) t) t

/-- The files that a command can see. -/
def load (s : Settings) : IO Workspace := do
  let here := placeOf (← IO.currentDir).toString
  let t ← loadAround .empty here
  match s.root with
  | none =>
      match findRepository? ⟨t, here⟩ with
      | none => return ⟨t, here⟩
      | some root => return ⟨← loadBelow t (placeOf root.text), here⟩
  | some root =>
      try
        let place := placeOf (← IO.FS.realPath root.text).toString
        return ⟨← loadBelow (← loadAround t place.dropLast) place, here⟩
      catch _ => return ⟨t, here⟩

/-- Writes the files of a tree that differ from what they were. -/
def store (before after : FileTree) : IO Unit := do
  for (l, e) in after.entries do
    match e with
    | .file (.text text) =>
        if before.get? l != some e then IO.FS.writeFile (pathOf l) text
    | _ => pure ()

/-- Tells why an audit failed. -/
def complain (e : AuditError) : IO UInt32 := do
  IO.eprintln ("Error: " ++ e.message)
  return 1

/-- Audits once, and again for each line of the input. -/
partial def listenLoop (s : Settings) (input : IO.FS.Stream) : IO Unit := do
  let w ← load s
  if let some r := rescan s w .never then
    IO.print (Report.jsonLine r)
    (← IO.getStdout).flush
  unless (← input.getLine).isEmpty do listenLoop s input

/-- How arguments are to be given. -/
def usage : String :=
  "Usage: unused [--root <ROOT>] [--exclude <EXCLUDE>]... [--stylesheet <STYLESHEET>] " ++
  "[--selector <SELECTOR>]... [--fix [--dry-run] | --listen] [--format <text|json>]"

/-- Runs the command that the arguments ask for. -/
def execute (arguments : List String) : IO UInt32 := do
  let began ← IO.monoMsNow
  match parseCommand arguments with
  | .error e =>
      if e.exitCode = 0 then IO.println usage else IO.eprintln usage
      return e.exitCode.toUInt32
  | .ok s =>
      let w ← load s
      if s.listen then
        match s.prepare w with
        | .error e => complain e
        | .ok s =>
            listenLoop s (← IO.getStdin)
            return 0
      else
        let colors := (← IO.getEnv "NO_COLOR").isNone && (← (← IO.getStdout).isTty)
        let elapsed := (← IO.monoMsNow) - began
        let outcome := run arguments ⟨w, [], colors, ⟨elapsed, 1⟩⟩
        store w.tree outcome.workspace.tree
        match outcome.error with
        | some e => complain e
        | none =>
            IO.print outcome.output
            return outcome.exitCode.toUInt32

end StyleAudit.Program

/-- The program. -/
def main (arguments : List String) : IO UInt32 := StyleAudit.Program.execute arguments
