import StyleLedger.Command.Arguments
import StyleLedger.Command.Shell
import StyleLedger.Conflict
import StyleLedger.Query

/-!
The commands of the program.
-/

namespace StyleLedger

namespace Command

open Shell

/-! ## Making style sheets -/

/-- Writes a style sheet to a file and says so. -/
def writeSheet (path : Path) (css : String) : Shell Unit := do
  change (.writeDeep path (Text.Utf8.encode css))
  line ("Wrote " ++ path.text)

/-- Applies the statements of one file to a cascade. -/
def applySource (around : Surroundings) (p : Project) (disk : Disk) (strict : Bool) (s : Cascade)
    (file : String) : Except Failure Cascade := do
  let path := Path.ofText file
  let statements ← Source.parseFile disk path strict
  let ctx : Context := { originFile := some (p.relative path) }
  Cascade.buildAt (around.clock.map (·.text)) ctx s statements

/-- Compiles files in order, without the database. Layer and spacing mode start anew in every
file. -/
def runCompile (around : Surroundings) (p : Project) (files : List String)
    (spacing out : Option String) : Shell Unit := do
  let config ← loadConfig around p spacing
  let state ← attempt none
    (files.foldlM (applySource around p (← disk) config.strictSemicolons) {})
  let css ← attempt none ((state.compile config.compiler).mapError .shape)
  match out with
  | none => put css
  | some out => writeSheet (Path.ofText out) css

/-- Compiles the database. -/
def runBuild (around : Surroundings) (p : Project) (spacing out : Option String) :
    Shell Unit := do
  if !(← onDisk (p.isThere (← disk))) then
    complain "Missing ./icbincss. Run `icbincss init` first.\n"
    exit 1
  let config ← loadConfig around p spacing
  line "Loading DB and compiling to CSS..."
  let store ← openStore p
  let css ← attempt (some "Build failed during compile:")
    ((store.compile config.compiler).mapError .shape)
  writeSheet (p.root.join (Path.ofText ((Text.present? out).getD config.outFile))) css

/-! ## Projects and migrations -/

/-- The statements of a new project's first migration. -/
def firstMigration : String := "\n".intercalate [
  "-- Bootstrap migration: tokens, selectors, and styles",
  "CREATE TOKEN 'brand/500' VALUE #2266ee;",
  "CREATE TOKEN 'space/4' VALUE 16px;",
  "",
  "CREATE SELECTOR card AS C('card');",
  "CREATE SELECTOR btn AS AND(E('button'), C('primary'));",
  "",
  "CREATE STYLE SELECTOR card (",
  "  background = #fff,",
  "  padding = token('space/4')",
  ");",
  "",
  "CREATE STYLE SELECTOR btn (",
  "  background = token('brand/500'),",
  "  color = #fff",
  ");",
  ""]

/-- The ending of the first migration's file. -/
def firstMigrationEnding : String := "__bootstrap.sql"

/-- Makes a new project; what is there is left alone. -/
def runInit (around : Surroundings) (p : Project) : Shell Unit := do
  let _ ← openStore p
  change (.ensureAll (p.root.child "dist"))
  let names := (← disk).names p.upDirectory
  if !names.any fun name => firstMigrationEnding.toList.isSuffixOf name.toList then
    let now ← readClock around
    writeFile (p.upDirectory.child (now.stamp ++ firstMigrationEnding)) firstMigration
  if !(← onDisk ((← disk).pathExists p.configFile)) then
    let content := Json.object [("outFile", .text (ProjectConfig.outFile {}))]
    writeFile p.configFile (content.writeLines ++ "\n")
  lines ["Scaffolded icbincss project.", "- icbincss/migrations/<timestamp>__bootstrap.sql",
    "- icbincss.config.json"]

/-- What migrations are applied with. -/
def engineOf (around : Surroundings) (p : Project) (config : ProjectConfig) : Engine :=
  { project := p, strict := config.strictSemicolons, clock := around.clock.map (·.text) }

/-- Makes a pair of new migration files. -/
def runCreate (around : Surroundings) (p : Project) (title : String) : Shell Unit := do
  let now ← readClock around
  let (created, after) := (Migration.create p title now).run (← disk)
  setDisk after
  let (upPath, downPath) ← attempt none created
  line "Created:"
  lines ([upPath, downPath].map fun path => " - " ++ p.relative path)

/-- Runs a step of the engine and keeps the store it gives. -/
def runStep (around : Surroundings) (p : Project) (direction : Direction) (nothing : String)
    (step : Engine → Disk → Store → Except Failure (Option (Store × LogEntry))) :
    Shell Unit := do
  let config ← loadConfig around p none
  let store ← openStore p
  match ← attempt none (step (engineOf around p config) (← disk) store) with
  | none => line nothing
  | some (store, entry) =>
    saveStore p store
    line ("Applied " ++ direction.name ++ ": " ++ entry.filename)

/-- The lines of one drift. -/
def driftLines (d : Drift) : List String :=
  match d.current with
  | none => ["  " ++ d.file ++ " is missing on disk (applied " ++ d.appliedAt ++ ")"]
  | some current =>
    ["  " ++ d.file ++ " (applied " ++ d.appliedAt ++ ") ⚠ CHECKSUM MISMATCH",
     "    Current:  " ++ current,
     "    Expected: " ++ d.expected]

/-- Some lines, or a line that says there are none. -/
def orNone (ls : List String) : List String :=
  if ls.isEmpty then ["  (none)"] else ls

/-- Shows what is applied, what is pending and what has drifted. -/
def runStatus (around : Surroundings) (p : Project) (strict : Bool) : Shell Unit := do
  let store ← openStore p
  let config ← loadConfig around p none
  let report ← onDisk ((engineOf around p config).status (← disk) store)
  line "Applied (top → bottom):"
  lines (orNone (report.applied.map ("  " ++ ·)))
  line ""
  line "Pending:"
  lines (orNone (report.pending.map fun path => "  " ++ Migration.idOf path.name))
  if report.applied.isEmpty then return
  line ""
  line "Warnings:"
  lines (orNone (report.drift.flatMap driftLines))
  if strict && !report.drift.isEmpty then exit 1

/-- Makes the database anew. -/
def runRebuild (around : Surroundings) (p : Project) : Shell Unit := do
  let config ← loadConfig around p none
  let store ← openStore p
  let (store, _) ← attempt (some "DB rebuild failed:")
    ((engineOf around p config).rebuild (← disk) store)
  saveStore p store
  line "DB rebuilt from source files."

/-! ## Reports -/

/-- The mark of a severity. -/
def mark : Severity → String
  | .error => "✗"
  | .warning => "⚠"
  | .info => "ℹ"

/-- A finding in a report. -/
def findingLine (f : Finding) : String :=
  mark f.severity ++ " " ++ f.severity.name ++ ": " ++ f.message

/-- Audits the database; errors make the command fail. -/
def runVerify (p : Project) : Shell Unit := do
  let store ← openStore p
  let findings ← attempt none (({ project := p } : Engine).audit (← disk) store)
  let errors := findings.filter (·.isError)
  let warnings := findings.filter (·.isWarning)
  lines ((errors ++ warnings).map findingLine)
  if errors.isEmpty && warnings.isEmpty then
    line "\n✓ Database verification passed with no issues."
  else
    line ("\nVerification finished with " ++ toString errors.length ++ " error(s), " ++
      toString warnings.length ++ " warning(s).")
    if !errors.isEmpty then exit 1

/-- Shows findings, or a line that says there are none. -/
def showFindings (findings : List Finding) (nothing : String) : Shell Unit :=
  lines (if findings.isEmpty then [nothing] else findings.map findingLine)

/-- Shows conflicts in the style sheet and, if asked, writes that never reach it. -/
def runDoctor (around : Surroundings) (p : Project) (history : Bool) (spacing : Option String) :
    Shell Unit := do
  let config ← loadConfig around p spacing
  let store ← openStore p
  let state ← attempt none (store.load.toCascade.mapError .shape)
  let sheet ← attempt none ((Sheet.plan state config.compiler).mapError .shape)
  line "Doctor report:"
  attempt none (sheet.checkConflicts.mapError .shape)
  showFindings sheet.conflicts "No obvious conflicts detected."
  if history then
    line ""
    line "History-aware analysis:"
    let hidden ← attempt none ((engineOf around p config).hiddenWrites (← disk) store)
    showFindings hidden "No unreachable rules detected across applied migrations."

/-- The lines of a rule, with the file that wrote each property last. -/
def ruleReport (r : SheetRule) : List String :=
  ("- " ++ r.summary) :: r.declarations.map fun d =>
    "  " ++ d.name ++ ": " ++ d.value.shown ++
      (if d.originFile.isTrue then "  // " ++ d.originFile.shown else "")

/-- Shows the rules of a selector and, if asked, what they come to. -/
def runInspect (around : Surroundings) (p : Project) (selector : String) (final : Bool)
    (spacing : Option String) : Shell Unit := do
  let config ← loadConfig around p spacing
  let state ← openCascade p
  let (target, rules) ← attempt none ((state.rulesFor config.compiler selector).mapError .shape)
  if rules.isEmpty then
    line ("No rules found for " ++ selector)
  else
    line ("Rules for " ++ target.shown ++ ":")
    lines (rules.flatMap ruleReport)
    if final then
      line ""
      line "Final cascaded props:"
      lines ((finalProperties rules).map fun (name, value) =>
        "  " ++ name ++ ": " ++ value.shown ++ ";")

/-- The lines of a rule in the answer to a query. -/
def ruleAnswer (target : String) (r : SheetRule) : List String :=
  (String.join (target :: (Descriptor.wrappersOf r.descriptor).map (" " ++ ·)) ++ " \x7b") ::
    (r.declarations.map (fun d => "  " ++ d.name ++ ": " ++ d.value.shown ++ ";") ++ ["\x7d"])

/-- Answers the first statement of a query. -/
def runQuery (around : Surroundings) (p : Project) (source : String) (spacing : Option String) :
    Shell Unit := do
  match ← attempt (some "Query parse error:") ((Source.parse source false).mapError .parse) with
  | [] => line "No query found"
  | statement :: _ =>
    let config ← loadConfig around p spacing
    let state ← openCascade p
    match statement with
    | .describeSelector name =>
      let css ← attempt none ((state.describe? name).mapError .shape)
      line ((css.map Json.shown).getD ("Selector not found: " ++ name))
    | .selectStyles name condition =>
      let (target, rules) ← attempt none ((state.rulesFor config.compiler name).mapError .shape)
      let rules ← attempt none ((Cascade.narrow rules condition).mapError .composition)
      lines (if rules.isEmpty then ["No rules for " ++ target.shown]
        else rules.flatMap (ruleAnswer target.shown))
    | _ =>
      complain "Unsupported query type\n"
      exit 1

/-! ## Running -/

/-- Runs a command for a project. -/
def run (around : Surroundings) (p : Project) : Command → Shell Unit
  | .init => runInit around p
  | .compile files spacing out => runCompile around p files spacing out
  | .build spacing out => runBuild around p spacing out
  | .create title => runCreate around p title
  | .up => runStep around p .up "No pending up migrations." Engine.up
  | .down => runStep around p .down "No applied migrations to revert." Engine.down
  | .status strict => runStatus around p strict
  | .rebuild => runRebuild around p
  | .verify => runVerify p
  | .inspect selector final spacing => runInspect around p selector final spacing
  | .query source spacing => runQuery around p source spacing
  | .doctor history spacing => runDoctor around p history spacing

/-! ## Invocations -/

/-- The code of an invocation that is not understood. -/
def usageCode : Nat := 2

/-- What an argument leads to. A text that is no path at all is a failure; nothing is given for one
that leads nowhere. -/
def lookAt (argument : String) : Shell (Option DiskEntry) := do
  match (← disk).lookText argument with
  | .ok entry => return some entry
  | .error .embeddedNull => throw (.raised (.ofFile ⟨.embeddedNull, .ofText argument⟩))
  | .error _ => return none

/-- Refuses a root that is a file. -/
def checkRoot (root : String) : Shell Unit := do
  if (← lookAt root).any DiskEntry.isFile then exit usageCode

/-- Refuses a file to compile that is not there. -/
def checkFile (file : String) : Shell Unit := do
  if !(← lookAt file).any DiskEntry.isFile then exit usageCode

/-- The files that a command needs to be there. -/
def neededFiles : Command → List String
  | .compile files _ _ => files
  | _ => []

/-- Shows the version. -/
def showVersion : Shell Unit := line "icbincss, version 0.1.0"

/-- Ends an invocation whose arguments name no command. They are read once more as options of the
program, so that a question for the version is answered and a root is looked at. -/
def refuse (arguments : List String) : Shell Unit := do
  match Invocation.ofArguments? arguments with
  | none => exit usageCode
  | some i =>
    if i.asksVersion then showVersion
    else
      checkRoot i.root
      exit usageCode

/-- Runs an invocation. The root is looked at before the command is understood. -/
def runInvocation (around : Surroundings) (i : Invocation) : Shell Unit := do
  if i.asksVersion then showVersion
  else
    checkRoot i.root
    match ofArguments? i.arguments with
    | none => refuse i.arguments
    | some command =>
      command.neededFiles.forM checkFile
      run around { root := Path.ofText i.root } command

/-- Runs the program with some arguments. -/
def runArguments (around : Surroundings) (args : List String) : Shell Unit :=
  match Invocation.ofArguments? args with
  | none => exit usageCode
  | some i => runInvocation around i

end Command

/-- What a run of the program comes to. -/
structure RunResult where
  session : Session
  code : Nat := 0
  raised : Option Failure := none
deriving Repr, Inhabited

/-- Runs the program with some arguments. -/
def runProgram (around : Surroundings) (disk : Disk) (args : List String) : RunResult :=
  let (outcome, last) := (Command.runArguments around args).run { disk }
  let session := Shell.settle last
  match outcome with
  | .ok () => { session }
  | .error (.exit code) => { session, code }
  | .error (.raised f) => { session, code := 1, raised := some f }

end StyleLedger
