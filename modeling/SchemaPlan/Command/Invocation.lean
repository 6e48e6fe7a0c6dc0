/-!
# Invocations

A command with its own switches, and the options that all commands share.
-/

namespace SchemaPlan

inductive CommandName where
  | parse
  | fmt
  | plan
  | sync
deriving DecidableEq, Repr

namespace CommandName

def all : List CommandName := [.parse, .fmt, .plan, .sync]

def text : CommandName → String
  | .parse => "parse"
  | .fmt => "fmt"
  | .plan => "plan"
  | .sync => "sync"

end CommandName

inductive Command where
  | parse (print : Bool)
  | fmt (check : Bool)
  | plan
  | sync (dryRun : Bool) (planOut? : Option String)
deriving DecidableEq, Repr

inductive Format where
  | human
  | json
  | plain
deriving DecidableEq, Repr

namespace Format

def all : List Format := [.human, .json, .plain]

def name : Format → String
  | .human => "human"
  | .json => "json"
  | .plain => "plain"

def ofName? (s : String) : Option Format := all.find? (·.name == s)

end Format

structure Options where
  config? : Option String := none
  format : Format := .human
  verbosity : Nat := 0
  quiet : Bool := false
  noColor : Bool := false
  schema? : Option String := none
  lock? : Option String := none
deriving DecidableEq, Repr

/-- How much is logged. -/
def Options.logLevel (o : Options) : String :=
  if o.quiet then "off"
  else
    match o.verbosity with
    | 0 => "error"
    | 1 => "info"
    | 2 => "debug"
    | _ => "trace"

structure Invocation where
  command : Command
  options : Options
deriving DecidableEq, Repr

end SchemaPlan
