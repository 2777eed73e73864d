import StyleLedger.Path
import StyleLedger.Text.LetterCase
import StyleLedger.Value

/-!
The arguments of the command line.

Options begin with a hyphen and may stand before or after the arguments of a command; those of the
program itself stand before the command. An option that takes a value takes it after an equals sign
or from the next argument. After two hyphens nothing is an option.
-/

namespace StyleLedger

/-- What the program is asked to do. -/
inductive Command
  | init
  | compile (files : List String) (spacing out : Option String)
  | build (spacing out : Option String)
  | create (title : String)
  | up
  | down
  | status (strict : Bool)
  | rebuild
  | verify
  | inspect (selector : String) (final : Bool) (spacing : Option String)
  | query (source : String) (spacing : Option String)
  | doctor (history : Bool) (spacing : Option String)
deriving Repr, DecidableEq, Inhabited

/-- An invocation of the program: the root of the project, whether only the version is asked for,
and the arguments that name the command. -/
structure Invocation where
  root : String := "."
  asksVersion : Bool := false
  arguments : List String := []
deriving Repr, DecidableEq, Inhabited

namespace Command

/-- The options a command knows: those that stand alone and those that take a value. The one-letter
forms of options are listed with what they stand for. -/
structure OptionNames where
  flags : List String := []
  valued : List String := []
  letters : List (Char × String) := []
  /-- Whether options may stand after the first argument. -/
  mixed : Bool := true
deriving Repr, DecidableEq, Inhabited

/-- What has been read: options and the remaining arguments. -/
structure Given where
  flags : List String := []
  values : List (String × String) := []
  arguments : List String := []
deriving Repr, DecidableEq, Inhabited

/-- Whether an option was given. -/
def Given.has (g : Given) (flag : String) : Bool := g.flags.contains flag

/-- The value of an option; the last one counts. -/
def Given.value? (g : Given) (name : String) : Option String :=
  g.values.reverse.lookup name

/-- What an argument is. -/
inductive ArgumentKind
  | plain
  | separator
  | flags (names : List String)
  | valued (name : String) (value : Option String)
  | unknown
deriving Repr, DecidableEq, Inhabited

/-- The options that a cluster of letters stands for. -/
def letterKind (known : OptionNames) (letters : List Char) : ArgumentKind :=
  match letters.mapM fun c => known.letters.lookup c with
  | some names => .flags names
  | none => .unknown

/-- What an argument is for a command. -/
def kindOf (known : OptionNames) (argument : String) : ArgumentKind :=
  match argument.toList with
  | ['-', '-'] => .separator
  | '-' :: c :: cs =>
    let name := String.ofList (argument.toList.takeWhile (· != '='))
    let value : Option String := match argument.toList.dropWhile (· != '=') with
      | _ :: v => some (String.ofList v)
      | [] => none
    if known.valued.contains name then .valued name value
    else if known.flags.contains name && value.isNone then .flags [name]
    else if c = '-' || known.flags.contains name then .unknown
    else letterKind known (c :: cs)
  | _ => .plain

/-- Reads arguments; none if they are not as a command wants them. -/
def readArguments (known : OptionNames) (g : Given) : List String → Option Given
  | [] => some g
  | a :: rest =>
    match kindOf known a with
    | .unknown => none
    | .separator => some { g with arguments := g.arguments ++ rest }
    | .plain =>
      if known.mixed then readArguments known { g with arguments := g.arguments ++ [a] } rest
      else some { g with arguments := g.arguments ++ a :: rest }
    | .flags names => readArguments known { g with flags := g.flags ++ names } rest
    | .valued name (some v) =>
      readArguments known { g with values := g.values ++ [(name, v)] } rest
    | .valued name none =>
      match rest with
      | [] => none
      | v :: rest => readArguments known { g with values := g.values ++ [(name, v)] } rest

/-! ## Commands -/

/-- The spacing mode that a choice stands for, letter case aside. -/
def spacingChoice? (value : String) : Option String :=
  (Value.spacingSizes.map (·.1)).find? fun mode => Text.foldChoice mode = Text.foldChoice value

/-- The forced spacing mode; none within if the option was not given, none at all if it is not a
choice. -/
def spacingOf? (g : Given) : Option (Option String) :=
  match g.value? "--butter" with
  | none => some none
  | some v => (spacingChoice? v).map some

/-- A command that takes no argument. -/
def alone (g : Given) (c : Command) : Option Command :=
  if g.arguments.isEmpty then some c else none

/-- The command that compiles files. -/
def compile? (args : List String) : Option Command := do
  let g ← readArguments { valued := ["--butter", "--out"] } {} args
  let spacing ← spacingOf? g
  if g.arguments.isEmpty then none else some (.compile g.arguments spacing (g.value? "--out"))

/-- The command that compiles the store. -/
def build? (args : List String) : Option Command := do
  let g ← readArguments { valued := ["--butter", "--out"] } {} args
  let spacing ← spacingOf? g
  alone g (.build spacing (g.value? "--out"))

/-- The commands on migrations. -/
def migrate? (args : List String) : Option Command := do
  match (← readArguments { mixed := false } {} args).arguments with
  | "create" :: rest =>
    let g ← readArguments { valued := ["--name"] } {} rest
    let title ← g.value? "--name"
    alone g (.create title)
  | "up" :: rest => alone (← readArguments {} {} rest) .up
  | "down" :: rest => alone (← readArguments {} {} rest) .down
  | "status" :: rest =>
    let g ← readArguments { flags := ["--strict"] } {} rest
    alone g (.status (g.has "--strict"))
  | _ => none

/-- The commands on the database. -/
def database? (args : List String) : Option Command := do
  match (← readArguments { mixed := false } {} args).arguments with
  | "rebuild" :: rest => alone (← readArguments {} {} rest) .rebuild
  | "verify" :: rest => alone (← readArguments {} {} rest) .verify
  | _ => none

/-- The command that shows the rules of a selector. -/
def inspect? (args : List String) : Option Command := do
  let g ← readArguments
    { flags := ["--final"], valued := ["--butter"], letters := [('f', "--final")] } {} args
  let spacing ← spacingOf? g
  match g.arguments with
  | [selector] => some (.inspect selector (g.has "--final") spacing)
  | _ => none

/-- The command that answers a query. -/
def query? (args : List String) : Option Command := do
  let g ← readArguments { valued := ["--butter"] } {} args
  let spacing ← spacingOf? g
  match g.arguments with
  | [source] => some (.query source spacing)
  | _ => none

/-- The command that looks for conflicts. -/
def doctor? (args : List String) : Option Command := do
  let g ← readArguments { flags := ["--history"], valued := ["--butter"] } {} args
  let spacing ← spacingOf? g
  alone g (.doctor (g.has "--history") spacing)

/-- The command with a name and arguments. -/
def ofArguments? : List String → Option Command
  | "init" :: args => do alone (← readArguments {} {} args) .init
  | "compile" :: args => compile? args
  | "build" :: args => build? args
  | "migrate" :: args => migrate? args
  | "db" :: args => database? args
  | "inspect" :: args => inspect? args
  | "query" :: args => query? args
  | "doctor" :: args => doctor? args
  | _ => none

end Command

/-- The invocation that some arguments stand for; none if they begin with an option that is not
known. -/
def Invocation.ofArguments? (args : List String) : Option Invocation := do
  let g ← Command.readArguments
    { flags := ["--version", "--verbose"], valued := ["--root"], letters := [('v', "--verbose")]
      mixed := false } {} args
  return { root := (g.value? "--root").getD ".", asksVersion := g.has "--version"
           arguments := g.arguments }

end StyleLedger
