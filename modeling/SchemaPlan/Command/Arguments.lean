import SchemaPlan.Command.Environment
import SchemaPlan.Command.Switch

/-!
# Arguments

Reading the words of a command line. The name of a command divides them into two levels, each with
its own switches; a switch is given once a level, and the second level prevails. A value that is
a word of its own is looked at when the next switch comes, or when all words of its level and of the
level below have been read.
-/

namespace SchemaPlan

/-- Why no command is run. The first two are what the words ask for. -/
inductive UsageError where
  | helpWanted
  | versionWanted
  | nothingGiven
  | missingCommand
  | unknownCommand
  | unknownArgument
  | invalidValue
  | conflict
  | unexpectedValue
deriving DecidableEq, Repr

def UsageError.exitCode : UsageError → Nat
  | .helpWanted | .versionWanted => 0
  | _ => 2

/-- What has been read of a level. -/
structure Progress where
  given : List (Switch × String) := []
  /-- The last switch, if it takes a value that is a word of its own. -/
  pending? : Option (Switch × Option String) := none

namespace Progress

def value? (p : Progress) (s : Switch) : Option String :=
  (p.given.find? (·.1 == s)).map Prod.snd

def Gives (p : Progress) (s : Switch) : Prop := s ∈ p.given.map Prod.fst

instance (p : Progress) (s : Switch) : Decidable (p.Gives s) := inferInstanceAs (Decidable (_ ∈ _))

def count (p : Progress) (s : Switch) : Nat := (p.given.map Prod.fst).count s

def isAwaiting (p : Progress) : Bool :=
  match p.pending? with
  | some (_, none) => true
  | _ => false

def accept (p : Progress) (s : Switch) (value : String) : Except UsageError Progress :=
  if s = .help then .error .helpWanted
  else if s = .version then .error .versionWanted
  else if p.Gives s ∧ !s.counts then .error .conflict
  else if s.allows value then .ok { p with given := p.given ++ [(s, value)] }
  else .error .invalidValue

/-- Takes the switch that is pending. -/
def settle (p : Progress) : Except UsageError Progress :=
  match p.pending? with
  | none => .ok p
  | some (_, none) => .error .invalidValue
  | some (s, some value) => accept { p with pending? := none } s value

def take (p : Progress) (s : Switch) (value : String) : Except UsageError Progress := do
  (← p.settle).accept s value

def await (p : Progress) (s : Switch) : Except UsageError Progress := do
  return { ← p.settle with pending? := some (s, none) }

end Progress

structure Level where
  switches : List Switch
  commands : List CommandName

namespace Level

def top : Level := ⟨Switch.shared ++ [.help, .version], CommandName.all⟩

/-- The level below a command's name. -/
def below (name : CommandName) : Level := ⟨Switch.shared ++ name.switches ++ [.help, .version], []⟩

def command? (l : Level) (word : String) : Option CommandName :=
  l.commands.find? (·.text == word)

/-- The word is a command, the one for help included. -/
def names (l : Level) (word : String) : Bool :=
  !l.commands.isEmpty && (word == "help" || (l.command? word).isSome)

/-- Reads a word like `--lock=path` without its dashes. -/
def readLong (l : Level) (p : Progress) (word : List Char) : Except UsageError Progress :=
  let name := word.takeWhile (· ≠ '=')
  let value := word.dropWhile (· ≠ '=')
  match l.switches.find? (·.long.toList == name) with
  | none => .error .unknownArgument
  | some s =>
    match value with
    | [] => if s.takesValue then p.await s else p.take s "true"
    | _ :: value => if s.takesValue then p.take s (.ofList value) else .error .unexpectedValue

/-- Reads a word like `-qsfile` without its dash: flags, then perhaps a switch with its value. -/
def readShort (l : Level) (p : Progress) : List Char → Except UsageError Progress
  | [] => .ok p
  | c :: rest =>
    match l.switches.find? (·.short? == some c) with
    | none => .error .unknownArgument
    | some s =>
      if s.takesValue then
        match rest with
        | [] => p.await s
        | '=' :: value => p.take s (.ofList value)
        | value => p.take s (.ofList value)
      else
        match p.take s "true" with
        | .error e => .error e
        | .ok p => l.readShort p rest

/-- The words after `help` name a command, if anything. -/
def helpFor (l : Level) : List String → UsageError
  | [] => .helpWanted
  | [word] => if l.names word then .helpWanted else .unknownCommand
  | _ => .unknownCommand

/-- What is wrong with a word that is neither switch, value nor command. After two dashes it may
still be the name of a command, which has to come before them. -/
def stray (l : Level) (afterDashes : Bool) (word : String) : UsageError :=
  if l.commands.isEmpty || (afterDashes && l.names word) then .unknownArgument else .unknownCommand

/-- Reads up to the name of a command, and gives it with the words after it. -/
def read (l : Level) (p : Progress) :
    List String → Except UsageError (Progress × Option (CommandName × List String))
  | [] => .ok (p, none)
  | word :: rest =>
    if !p.isAwaiting && l.names word then
      match l.command? word with
      | some name => .ok (p, some (name, rest))
      | none => .error (l.helpFor rest)
    else
      match word.toList with
      | ['-', '-'] =>
        match rest with
        | [] => .ok (p, none)
        | next :: _ => .error (l.stray true next)
      | '-' :: '-' :: long =>
        match l.readLong p long with
        | .error e => .error e
        | .ok p => l.read p rest
      | '-' :: c :: cs =>
        match l.readShort p (c :: cs) with
        | .error e => .error e
        | .ok p => l.read p rest
      | _ =>
        match p.pending? with
        | some (s, none) => l.read { p with pending? := some (s, some word) } rest
        | _ => .error (l.stray false word)

/-- The value that the environment has for a switch. -/
def environmentValue? (env : Environment) : Switch → Option String
  | .config => env.config?
  | .noColor => env.noColor?
  | _ => none

/-- The switches that the environment gives and the words of the level do not. -/
def fromEnvironment (env : Environment) (p : Progress) : List (Switch × String) :=
  Switch.shared.filterMap fun s =>
    if p.Gives s then none else (environmentValue? env s).map (s, ·)

/-- Looks at a level as a whole. -/
def finish (l : Level) (env : Environment) (p : Progress) (hasCommand : Bool) :
    Except UsageError Progress := do
  let p ← p.settle
  let added := fromEnvironment env p
  if added.any fun (s, value) => !s.allows value then throw .invalidValue
  if !l.commands.isEmpty && !hasCommand then
    throw (if p.given.isEmpty && added.isEmpty then .nothingGiven else .missingCommand)
  if p.Gives .verbose ∧ p.Gives .quiet then throw .conflict
  return p

end Level

/-- What both levels and the environment give together. -/
structure Arguments where
  environment : Environment
  top : Progress
  below : Progress

namespace Arguments

def value? (a : Arguments) (s : Switch) : Option String :=
  a.below.value? s <|> a.top.value? s <|> Level.environmentValue? a.environment s

def isSet (a : Arguments) (s : Switch) : Bool := a.value? s == some "true"

/-- Counts of one level are not added to those of the other. -/
def count (a : Arguments) (s : Switch) : Nat :=
  let n := if a.below.count s = 0 then a.top.count s else a.below.count s
  min n 255

def options (a : Arguments) : Options where
  config? := a.value? .config
  format := ((a.value? .format).bind Format.ofName?).getD .human
  verbosity := a.count .verbose
  quiet := a.isSet .quiet
  noColor := a.isSet .noColor
  schema? := a.value? .schema
  lock? := a.value? .lock

/-- The command that is named, with the switches of its own. -/
def command (a : Arguments) : CommandName → Command
  | .parse => .parse (a.isSet .print)
  | .fmt => .fmt (a.isSet .check)
  | .plan => .plan
  | .sync => .sync (a.isSet .dryRun) (a.value? .planOut)

end Arguments

/-- Reads a command line without the program's own name. -/
def Invocation.ofWords (env : Environment) (words : List String) :
    Except UsageError Invocation := do
  let (top, command?) ← Level.top.read {} words
  match command? with
  | none =>
    let _ ← Level.top.finish env top false
    throw .missingCommand
  | some (name, rest) =>
    let (below, _) ← (Level.below name).read {} rest
    let below ← (Level.below name).finish env below true
    let top ← Level.top.finish env top true
    let arguments : Arguments := ⟨env, top, below⟩
    return ⟨arguments.command name, arguments.options⟩

end SchemaPlan
