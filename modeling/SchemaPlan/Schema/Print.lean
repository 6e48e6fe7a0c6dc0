import SchemaPlan.Schema.Document
import SchemaPlan.Schema.Timestamps

/-!
# Printing

The normal form of schema text: four blanks before a field, one blank line between models, and
`timestamps` for the pair it stands for.
-/

namespace SchemaPlan

def fieldLines : List Field → List String
  | [] => []
  | [f] => [f.text]
  | f :: g :: rest =>
    if [f, g] == timestampFields then "timestamps" :: fieldLines rest
    else f.text :: fieldLines (g :: rest)

def Model.print (m : Model) : String :=
  s!"model {m.name} \x7b\n" ++ .join ((fieldLines m.fields).map fun l => s!"    {l}\n") ++ "\x7d\n"

def Document.print (d : Document) : String := "\n".intercalate (d.models.map Model.print)

end SchemaPlan
