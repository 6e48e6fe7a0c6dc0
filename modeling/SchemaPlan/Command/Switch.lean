import SchemaPlan.Command.Invocation

/-!
# Switches

The switches of the command line, long and short, and what each may be given.
-/

namespace SchemaPlan

inductive Switch where
  | config
  | format
  | verbose
  | quiet
  | noColor
  | schema
  | lock
  | print
  | check
  | dryRun
  | planOut
  | help
  | version
deriving DecidableEq, Repr

namespace Switch

/-- The switches of every command, before or after its name. -/
def shared : List Switch := [.config, .format, .verbose, .quiet, .noColor, .schema, .lock]

def long : Switch → String
  | .config => "config"
  | .format => "format"
  | .verbose => "verbose"
  | .quiet => "quiet"
  | .noColor => "no-color"
  | .schema => "schema"
  | .lock => "lock"
  | .print => "print"
  | .check => "check"
  | .dryRun => "dry-run"
  | .planOut => "plan-out"
  | .help => "help"
  | .version => "version"

def short? : Switch → Option Char
  | .config => some 'c'
  | .verbose => some 'v'
  | .quiet => some 'q'
  | .schema => some 's'
  | .lock => some 'l'
  | .dryRun => some 'n'
  | .planOut => some 'o'
  | .help => some 'h'
  | .version => some 'V'
  | _ => none

def takesValue : Switch → Bool
  | .config | .format | .schema | .lock | .planOut => true
  | _ => false

/-- Said twice it means more. -/
def counts : Switch → Bool
  | .verbose => true
  | _ => false

/-- A path is not empty, a format is one of three, and a flag is true or false. -/
def allows (s : Switch) (value : String) : Bool :=
  match s with
  | .format => (Format.ofName? value).isSome
  | .config | .schema | .lock | .planOut => value != ""
  | _ => value == "true" || value == "false"

end Switch

/-- The switches that only one command has. -/
def CommandName.switches : CommandName → List Switch
  | .parse => [.print]
  | .fmt => [.check]
  | .plan => []
  | .sync => [.dryRun, .planOut]

end SchemaPlan
