import Cpm.CommandLine.Session

/-!
# The program

The outer layer: it takes what lies at the paths that a session can ask for, passes
on keys and console output while the machine runs, shows the log and the report, and
writes changed files.
-/

namespace Cpm.Program

def pathOf (at_ : Location) : String := "/" ++ "/".intercalate at_

/-- Adds what lies at a path, and on the way to it, to the known files. -/
def snapshot (fs : HostFiles) (path : String) : IO HostFiles := do
  let root ← IO.currentDir
  let mut known := fs
  let mut here := if path.startsWith "/" then [] else fs.workingDirectory
  for name in HostFiles.names path.toList do
    here := HostFiles.follow here name
    let place := root / pathOf here
    if ← place.isDir then
      known := known.makeDirectory here
    else if ← place.pathExists then
      known := known.put here (← IO.FS.readBinFile place)
  return known

/-- Writes the files that differ from those known before. -/
def writeChanges (before after : HostFiles) : IO Unit := do
  for (location, bytes) in after.files do
    unless before.files.lookup location == some bytes do
      IO.FS.writeBinFile (pathOf location) bytes

/-- Bytes that were typed, in the order of arrival, with `none` for the end. -/
abbrev Inbox := IO.Ref (Array (Option UInt8))

/-- Puts one byte after another into the inbox. -/
partial def pump (input : IO.FS.Stream) (inbox : Inbox) : IO Unit := do
  let piece ← input.read 1
  inbox.modify (·.push (piece.toList.head?))
  unless piece.isEmpty do pump input inbox

/-- Passes what has arrived on to a console that has nothing left. -/
def receive (inbox : Inbox) (c : HostConsole) : IO HostConsole := do
  unless c.channel.queue.isEmpty do return c
  let arrived ← inbox.modifyGet fun a => (a, #[])
  let c := c.deliver (arrived.toList.filterMap id)
  return if arrived.contains none then c.close else c

/-- Shows what the console has collected, and empties it. -/
def emit (output : IO.FS.Stream) (c : HostConsole) : IO HostConsole := do
  if c.output.isEmpty then return c
  output.write ⟨c.output⟩
  if c.output.contains 0x0A then output.flush
  return c.emptied

/-- Rounds that a single output instruction may take; it never takes more. -/
def rounds : Nat := 0x1000000

/-- Runs the machine to its end. A turn for which a key is missing is made again when
one has arrived. -/
partial def attend (output : IO.FS.Stream) (inbox : Inbox) (observer : Observer Unit)
    (threshold : Log.Threshold) (r : Run (Bios HostConsole) Unit) :
    IO (Machine HostConsole × RunSummary) := do
  let console ← receive inbox r.host.console
  let r := { r with host := { r.host with console := console } }
  match r.turn Bios.ports observer rounds with
  | none => throw (IO.userError "an output instruction does not end")
  | some t =>
    if t.run.host.console.starved then
      output.flush
      IO.sleep 1
      attend output inbox observer threshold r
    else
      let console ← emit output t.run.host.console
      IO.eprint (Log.text threshold t.log)
      let r := { t.run with host := { t.run.host with console := console } }
      match t.summary with
      | some summary => return (.ofRun r, summary)
      | none => attend output inbox observer threshold r

def session (a : Arguments) : IO Bool := do
  let home := (← IO.getEnv "HOME").getD ""
  let here := HostFiles.names (← IO.currentDir).toString.toList
  let files ← snapshot (.empty here) (a.config.getD (Settings.usualPath home))
  match Session.settings a ⟨files, home⟩ with
  | .error e =>
    IO.eprint (Report.ofSettingsError e).text
    return false
  | .ok (settings, threshold) =>
    let image := (a.image <|> settings.boot).toList
    let files ← (Session.drives a settings ++ image).foldlM snapshot files
    let setup := Session.setUp a settings files .waiting
    IO.eprint (Log.text threshold setup.log)
    match setup.machine with
    | .error report =>
      IO.eprint report.text
      return false
    | .ok m =>
      let output ← IO.getStdout
      let inbox ← IO.mkRef #[]
      let _ ← IO.asTask (pump (← IO.getStdin) inbox) .dedicated
      let (m, summary) ← attend output inbox (Session.observer a) threshold (m.start ())
      output.flush
      let closing := Session.close m summary files
      writeChanges files closing.files
      IO.eprint (Log.text threshold (Machine.haltRecord summary :: closing.log))
      IO.eprint ((closing.report.map Report.text).getD "")
      return closing.report.isNone

end Cpm.Program

def main (args : List String) : IO UInt32 := do
  match Cpm.Arguments.parse args with
  | .error e =>
    IO.eprintln ("error: " ++ e.message ++ "\n\nFor more information, try '--help'.")
    return 2
  | .ok .help =>
    IO.print Cpm.Request.helpText
    return 0
  | .ok .version =>
    IO.print Cpm.Request.versionText
    return 0
  | .ok (.run a) => return if ← Cpm.Program.session a then 0 else 1
