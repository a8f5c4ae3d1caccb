import ReactiveViews.Text.Blank
import ReactiveViews.Text.Quoted

/-!
# Tag descriptors

A tag descriptor names a component and says how it is addressed: `li#first.item.active$head`
is an `li` with the id `first`, the classes `item` and `active` and the name `head`. The
marks `#`, `.` and `$` may come in any order; there is at most one id and one name. Without
a tag there must be an id, and the tag is then `div`.

## The model

`Tag.scan` cuts the text at the marks and fills in one part after the other; its errors are
found in the order of the text.
-/

namespace ReactiveViews

/-- A tag descriptor. -/
structure Tag where
  /-- The kind of component. -/
  tag : String
  /-- The id. -/
  id : Option String
  /-- The classes in order. -/
  classes : List String
  /-- The name by which the element is found in its tree. -/
  name : Option String
  deriving DecidableEq, Repr, Inhabited

/-- Why a text is no tag descriptor. -/
inductive TagFault where
  /-- A mark with nothing behind it. -/
  | emptySegment
  /-- A second id. -/
  | secondId
  /-- A second name. -/
  | secondName
  /-- White space. -/
  | blank
  /-- Neither a tag nor an id. -/
  | nothingNamed
  deriving DecidableEq, Repr

/-- The wording of a fault. -/
def TagFault.message : TagFault → String
  | emptySegment => "empty segment"
  | secondId => "more than one id"
  | secondName => "more than one name"
  | blank => "whitespace is not allowed"
  | nothingNamed => "a tag or an id is required"

namespace Tag

/-- The tag of a descriptor that names none. -/
def defaultTag : String := "div"

/-- The characters that introduce a segment. -/
def isMark (c : Char) : Bool := c == '#' || c == '.' || c == '$'

/-- What has been read before the current segment, the classes last first. -/
structure Partial where
  /-- The leading segment, which is empty as long as it has not been read. -/
  tag : String
  /-- The id. -/
  id : Option String
  /-- The classes, last first. -/
  classes : List String
  /-- The name. -/
  name : Option String

/-- Nothing read. -/
def Partial.start : Partial := ⟨"", none, [], none⟩

/-- Ends a segment, which was introduced by a mark or is the leading one. -/
def Partial.finish (p : Partial) (mark : Option Char) (segment : String) :
    Except TagFault Partial :=
  match mark with
  | none => .ok { p with tag := segment }
  | some c =>
    if segment.isEmpty then .error .emptySegment
    else if c = '#' then
      if p.id.isSome then .error .secondId else .ok { p with id := some segment }
    else if c = '.' then .ok { p with classes := segment :: p.classes }
    else if p.name.isSome then .error .secondName
    else .ok { p with name := some segment }

/-- Walks over the characters: `segment` holds those since the last mark, last first. -/
def scan (p : Partial) (mark : Option Char) (segment : List Char) :
    List Char → Except TagFault Partial
  | [] => p.finish mark (String.ofList segment.reverse)
  | c :: rest =>
    if isMark c then
      (p.finish mark (String.ofList segment.reverse)).bind fun p => scan p (some c) [] rest
    else if Text.isBlank c then .error .blank
    else scan p mark (c :: segment) rest

/-- The descriptor of what was read. -/
def Partial.descriptor (p : Partial) : Except TagFault Tag :=
  if p.tag.isEmpty ∧ p.id.isNone then .error .nothingNamed
  else .ok ⟨if p.tag.isEmpty then defaultTag else p.tag, p.id, p.classes.reverse, p.name⟩

/-- Reads a tag descriptor. -/
def parse (src : String) : Except TagFault Tag :=
  (scan .start none [] src.toList).bind Partial.descriptor

/-- The value of the class attribute: the classes with spaces between them. -/
def classAttribute (t : Tag) : Option String :=
  if t.classes.isEmpty then none else some (String.intercalate " " t.classes)

/-- The text of a tag descriptor: tag, id, classes, name. -/
def text (t : Tag) : String :=
  t.tag ++ (t.id.map ("#" ++ ·)).getD "" ++ String.join (t.classes.map ("." ++ ·)) ++
    (t.name.map ("$" ++ ·)).getD ""

end Tag

end ReactiveViews
