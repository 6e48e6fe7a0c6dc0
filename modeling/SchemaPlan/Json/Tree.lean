import SchemaPlan.Json.Token

/-!
# JSON trees

A text is read into a tree before it is known what the tree has to hold. Where the text breaks, the
tree holds a fault and ends. Values stand in the tree in the order of the text, so a reader that
walks the tree meets the first problem first, be it a fault or a value of the wrong kind.
-/

namespace SchemaPlan.Json

/-- What the text has to go on with. -/
inductive Expectation where
  | value
  /-- The first item of an array, or its end. -/
  | firstItem
  /-- The item after a comma. -/
  | item
  | afterItem
  /-- The first key of an object, or its end. -/
  | firstKey
  /-- The key after a comma. -/
  | key
  | colon
  | afterMember
deriving DecidableEq, Repr

/-- A token that does not go on with the text as it should. -/
structure Fault where
  expected : Expectation
  token : Token

mutual

inductive Tree where
  | scalar (scalar : Scalar) (start stop : Mark)
  | array (start : Mark) (items : Items)
  | object (start : Mark) (members : Members)
  | fault (fault : Fault)

/-- The items of an array. `settled` is where a reader stands that gives up after the item: past the
closing bracket, or the comma, and past blanks. -/
inductive Items where
  | close (stop : Mark)
  | fault (fault : Fault)
  | item (value : Tree) (settled : Mark) (rest : Items)

/-- The members of an object. The settled marks are those past the closing brace, if it is next, and
past blanks. -/
inductive Members where
  | close (stop : Mark)
  | fault (fault : Fault)
  | member (key : Except Error String) (stop settledKey : Mark) (value : Tree) (settled : Mark)
      (rest : Members)

end

namespace Fault

def peeked (f : Fault) (cause : Cause) : Error := .marked cause f.token.peek

/-- Where a value or a key was expected: a broken token tells its own error. -/
def own (f : Fault) (own : Error → Error → Error) (atEnd otherwise : Cause) : Error :=
  match f.token.kind with
  | .broken _ read skip => own read skip
  | .finish => f.peeked atEnd
  | _ => f.peeked otherwise

/-- A key that is broken off tells its own error only if it starts as a string. -/
def ownKey (f : Fault) (own : Error → Error → Error) (atEnd : Cause) : Error :=
  match f.token.kind with
  | .broken true read skip => own read skip
  | .finish => f.peeked atEnd
  | _ => f.peeked .keyNotString

def orEnd (f : Fault) (atEnd otherwise : Cause) : Error :=
  match f.token.kind with
  | .finish => f.peeked atEnd
  | _ => f.peeked otherwise

/-- The error when the place is read. -/
def read (f : Fault) : Error :=
  match f.expected, f.token.kind with
  | .value, _ => f.own (fun read _ => read) .endInValue .expectedValue
  | .firstItem, _ => f.own (fun read _ => read) .endInArray .expectedValue
  | .item, .endArray => f.peeked .trailingComma
  | .item, _ => f.own (fun read _ => read) .endInValue .expectedValue
  | .afterItem, _ => f.orEnd .endInArray .expectedCommaOrBracket
  | .firstKey, _ => f.ownKey (fun read _ => read) .endInObject
  | .key, .endObject => f.peeked .trailingComma
  | .key, _ => f.ownKey (fun read _ => read) .endInValue
  | .colon, _ => f.orEnd .endInObject .expectedColon
  | .afterMember, _ => f.orEnd .endInObject .expectedCommaOrBrace

/-- The error when the place is skipped. -/
def skip (f : Fault) : Error :=
  match f.expected with
  | .value => f.own (fun _ skip => skip) .endInValue .expectedValue
  | .firstItem => f.own (fun _ skip => skip) .endInArray .expectedValue
  | .item => f.own (fun _ skip => skip) .endInValue .expectedValue
  | .firstKey | .key => f.ownKey (fun _ skip => skip) .endInObject
  | _ => f.read

/-- The error when a string or an object was expected to start here. -/
def readAsVariant (f : Fault) : Error :=
  match f.expected, f.token.kind with
  | .colon, _ => f.read
  | _, .broken true read _ => read
  | _, _ => f.orEnd .endInValue .expectedValue

/-- The fault as that of a value, if it is a value that fails to start here. -/
def value? (f : Fault) : Option Fault :=
  match f.expected, f.token.kind with
  | .item, .endArray | .item, .finish | .firstItem, .finish => none
  | .item, _ | .firstItem, _ => some ⟨.value, f.token⟩
  | _, _ => none

end Fault

/-- A container that is still open, with what it holds so far, the last first. -/
inductive Frame where
  | array (start : Mark) (done : List (Tree × Mark))
  | member (start : Mark) (done : List (Members → Members)) (key : Except Error String)
      (stop settledKey : Mark)

namespace Items

def ofReversed (rest : Items) (done : List (Tree × Mark)) : Items :=
  done.foldl (fun rest (value, settled) => .item value settled rest) rest

end Items

namespace Members

def ofReversed (rest : Members) (done : List (Members → Members)) : Members :=
  done.foldl (fun rest add => add rest) rest

end Members

/-- What is under way between two tokens. -/
inductive Growth where
  | value
  | firstItem (start : Mark)
  | item (start : Mark) (done : List (Tree × Mark))
  | firstKey (start : Mark)
  | key (start : Mark) (done : List (Members → Members))
  | colon (start : Mark) (done : List (Members → Members)) (key : Except Error String)
      (stop settledKey : Mark)
  | after (value : Tree)

namespace Tree

/-- Ends a text in which the value `t` is the last: every container that is open ends in the
fault. -/
def abandon (f : Fault) (t : Tree) : List Frame → Tree
  | [] => t
  | .array start done :: frames =>
    abandon f (.array start (.ofReversed (.fault f) ((t, f.token.start) :: done))) frames
  | .member start done key stop settledKey :: frames =>
    let members := Members.member key stop settledKey t f.token.start (.fault f)
    abandon f (.object start (.ofReversed members done)) frames

/-- Ends a text at a token that cannot start the value expected. -/
def abandonValue (expected : Expectation) (token : Token) (frames : List Frame) : Tree :=
  abandon ⟨expected, token⟩ (.fault ⟨expected, token⟩) frames

/-- Where a reader stands that gives up before a token of an array. -/
def settledItem (token : Token) (next? : Option Token) : Mark :=
  match token.kind with
  | .endArray => token.stop
  | .comma => (next?.map Token.start).getD token.stop
  | _ => token.start

/-- Where a reader stands that gives up before a token of an object. -/
def settledMember (token : Token) : Mark :=
  match token.kind with
  | .endObject => token.stop
  | _ => token.start

/-- A tree, and the token found after it instead of the end of the text. -/
structure Grown where
  tree : Tree
  trailing? : Option Token := none

/-- One token more leads on, or ends the growth. -/
inductive Step where
  | more (growth : Growth) (frames : List Frame)
  | stop (grown : Grown)

/-- A value starts at the token. -/
def stepValue (expected : Expectation) (frames : List Frame) (token : Token) : Step :=
  match token.kind with
  | .scalar s => .more (.after (.scalar s token.start token.stop)) frames
  | .beginArray => .more (.firstItem token.start) frames
  | .beginObject => .more (.firstKey token.start) frames
  | _ => .stop ⟨abandonValue expected token frames, none⟩

/-- A key starts at the token. -/
def stepKey (expected : Expectation) (start : Mark) (done : List (Members → Members))
    (frames : List Frame) (token : Token) (next? : Option Token) : Step :=
  match token.kind with
  | .scalar (.string key) =>
    .more (.colon start done key token.stop ((next?.map settledMember).getD token.stop)) frames
  | _ =>
    let f : Fault := ⟨expected, token⟩
    .stop ⟨abandon f (.object start (.ofReversed (.fault f) done)) frames, none⟩

/-- A value is complete, and the token comes after it. -/
def stepAfter (value : Tree) (frames : List Frame) (token : Token) (next? : Option Token) : Step :=
  match frames with
  | [] =>
    match token.kind with
    | .finish => .stop ⟨value, none⟩
    | _ => .stop ⟨value, some token⟩
  | .array start done :: frames =>
    let done := (value, settledItem token next?) :: done
    match token.kind with
    | .comma => .more (.item start done) frames
    | .endArray => .more (.after (.array start (.ofReversed (.close token.stop) done))) frames
    | _ =>
      let f : Fault := ⟨.afterItem, token⟩
      .stop ⟨abandon f (.array start (.ofReversed (.fault f) done)) frames, none⟩
  | .member start done key stop settledKey :: frames =>
    let done := .member key stop settledKey value (settledMember token) :: done
    match token.kind with
    | .comma => .more (.key start done) frames
    | .endObject => .more (.after (.object start (.ofReversed (.close token.stop) done))) frames
    | _ =>
      let f : Fault := ⟨.afterMember, token⟩
      .stop ⟨abandon f (.object start (.ofReversed (.fault f) done)) frames, none⟩

def step (growth : Growth) (frames : List Frame) (token : Token) (next? : Option Token) : Step :=
  match growth with
  | .value => stepValue .value frames token
  | .firstItem start =>
    match token.kind with
    | .endArray => .more (.after (.array start (.close token.stop))) frames
    | .finish =>
      let f : Fault := ⟨.firstItem, token⟩
      .stop ⟨abandon f (.array start (.fault f)) frames, none⟩
    | _ => stepValue .value (.array start [] :: frames) token
  | .item start done =>
    match token.kind with
    | .endArray | .finish =>
      let f : Fault := ⟨.item, token⟩
      .stop ⟨abandon f (.array start (.ofReversed (.fault f) done)) frames, none⟩
    | _ => stepValue .value (.array start done :: frames) token
  | .firstKey start =>
    match token.kind with
    | .endObject => .more (.after (.object start (.close token.stop))) frames
    | _ => stepKey .firstKey start [] frames token next?
  | .key start done => stepKey .key start done frames token next?
  | .colon start done key stop settledKey =>
    let frame := Frame.member start done key stop settledKey
    match token.kind with
    | .colon => .more .value (frame :: frames)
    | _ => .stop ⟨abandonValue .colon token (frame :: frames), none⟩
  | .after value => stepAfter value frames token next?

/-- Grows a tree token by token, inside the frames that are open. Growth ends at the last token of
a text at the latest; tokens that run out before give a fault. -/
def grow (growth : Growth) (frames : List Frame) : List Token → Grown
  | [] => ⟨.fault ⟨.value, ⟨.finish, .start, .start⟩⟩, none⟩
  | token :: rest =>
    match step growth frames token rest.head? with
    | .stop grown => grown
    | .more growth frames => grow growth frames rest

def ofText (text : String) : Grown := grow .value [] (Token.scan ⟨text.toList, .start⟩)

end Tree

end SchemaPlan.Json
