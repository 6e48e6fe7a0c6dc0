import SchemaPlan.Schema.AttributeSet
import SchemaPlan.Source.Token

/-!
# Tags

The attribute tokens of a field line are applied in order to the attributes of the field. What
cannot be kept is reported: a tag outside the vocabulary, a repeated flag, a default without a
value, the arguments of a flag. A second default is an error.
-/

namespace SchemaPlan.Source

/-- An attribute token taken apart: `@name` or `@name(arguments)`. -/
structure Tag where
  name : String
  arguments? : Option String
deriving DecidableEq, Repr

namespace Tag

/-- Arguments lose their closing parentheses, and then the blanks at both ends. -/
def ofText (s : String) : Tag :=
  let body := s.toList.dropWhile (· == '@')
  match body.dropWhile (· != '(') with
  | [] => ⟨.ofList body, none⟩
  | _ :: rest =>
    let inner := (rest.reverse.dropWhile (· == ')')).reverse
    ⟨.ofList (body.takeWhile (· != '(')), some (Text.trim (.ofList inner))⟩

end Tag

/-- The field whose line is read. -/
structure Site where
  model : String
  field : String

namespace Site

def warn (site : Site) (token : Token) (kind : WarningKind) : Warning :=
  ⟨kind, site.model, site.field, token.line, token.span⟩

def applyDefault (site : Site) (token : Token) (set : AttributeSet) :
    Option String → Except Error (AttributeSet × List Warning)
  | none | some "" => .ok (set, [site.warn token .missingDefaultValue])
  | some value =>
    if set.HasKind .default then
      .error (.duplicateDefault site.model site.field token.line token.span)
    else .ok (set.insert (.default value), [])

def applyFlag (site : Site) (token : Token) (set : AttributeSet) (flag : Flag)
    (arguments? : Option String) : AttributeSet × List Warning :=
  let ignored := if arguments?.isSome then [site.warn token (.ignoredArguments flag.name)] else []
  if set.HasKind (.flag flag) then
    (set, ignored ++ [site.warn token (.duplicateAttribute flag.name)])
  else (set.insert (.flag flag), ignored)

def applyTag (site : Site) (token : Token) (set : AttributeSet) :
    Except Error (AttributeSet × List Warning) :=
  let tag := Tag.ofText token.text
  if tag.name = "default" then site.applyDefault token set tag.arguments?
  else
    match Flag.ofName? tag.name with
    | some flag => .ok (site.applyFlag token set flag tag.arguments?)
    | none => .ok (set, [site.warn token (.unknownAttribute tag.name)])

/-- Applies the tags among some tokens; other tokens are dropped. -/
def applyTags (site : Site) (set : AttributeSet) :
    List Token → Except Error (AttributeSet × List Warning)
  | [] => .ok (set, [])
  | t :: rest =>
    if t.kind = .tag then do
      let (set, warnings) ← site.applyTag t set
      let (set, later) ← site.applyTags set rest
      return (set, warnings ++ later)
    else site.applyTags set rest

end Site

end SchemaPlan.Source
