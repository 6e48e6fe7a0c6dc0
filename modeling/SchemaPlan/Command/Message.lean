import SchemaPlan.Command.Invocation
import SchemaPlan.Json.Value

/-!
# Messages

The lines that a command reports beside its answer. Which of them appear, and how they look, is
for the options to say.
-/

namespace SchemaPlan.Options

/-- Messages for a reader, who may not want them. -/
def chats (o : Options) : Bool := o.format == .human && !o.quiet

/-- The last line of work that was done. -/
def success (o : Options) (message : String) : String :=
  if o.chats then s!"ok {message}\n" else ""

def status (o : Options) (message : String) : String :=
  if o.chats then s!"{message}\n" else ""

def warning (o : Options) (message : String) : String :=
  if o.quiet then ""
  else
    match o.format with
    | .human => s!"warning: {message}\n"
    | .json => (Json.object [("warning", .string message)]).compact ++ "\n"
    | .plain => s!"warning\t{message}\n"

/-- A detail for who asks for more. -/
def detail (o : Options) (message : String) : String :=
  if o.format = .human ∧ 0 < o.verbosity then s!"  {message}\n" else ""

end SchemaPlan.Options

namespace SchemaPlan

/-- The answer to a program: members in the order of their keys. -/
def Json.document (j : Json) : String := j.sortKeys.pretty 0 ++ "\n"

end SchemaPlan
