import ReactiveViews.Template.Fault

/-!
# Entries of a template

A template is a JSON object. Each of its entries, and each entry of the objects inside, is
either a directive (`if`, or a word before a colon and a name behind it) or a child, whose
key is a tag descriptor and whose value is an object again.
-/

namespace ReactiveViews

/-- A template: the members of its outermost object. -/
structure Template where
  /-- The entries in order. -/
  entries : List (String × Json)

namespace Template

/-- The template that a JSON value is. -/
def ofJson : Json → Except ViewError Template
  | .object members => .ok ⟨members⟩
  | other => .error (.template none (.notObject other.kind))

/-- The template of a JSON text. -/
def ofText (text : String) : Except ViewError Template :=
  match Json.read text with
  | some value => ofJson value
  | none => .error .json

end Template

/-- What a key says about its value. -/
inductive Entry where
  /-- An attribute that is set when the element is made. -/
  | once (name : String)
  /-- An attribute that is set at every update. -/
  | bind (name : String)
  /-- A handler of an event. -/
  | on (event : String)
  /-- A list with one element for each item, which is known by a name. -/
  | forEach (name : String)
  /-- A condition. -/
  | condition
  /-- A child. -/
  | child (tag : Tag)
  deriving DecidableEq, Repr

namespace Entry

/-- The characters before and after the first colon, if there is one. -/
def splitColon : List Char → Option (List Char × List Char)
  | [] => none
  | c :: rest =>
    if c = ':' then some ([], rest)
    else (splitColon rest).map fun (before, after) => (c :: before, after)

/-- The directive of a word and a name. -/
def directive? (word name : String) : Option Entry :=
  if word = "once" then some (.once name)
  else if word = "bind" then some (.bind name)
  else if word = "on" then some (.on name)
  else if word = "forEach" then some (.forEach name)
  else none

/-- What an entry is. The key of a child is looked at before its value. -/
def classify (key : String) (value : Json) : Except TemplateFault Entry :=
  if key = "if" then .ok .condition
  else
    match splitColon key.toList with
    | some (word, name) =>
      if name.isEmpty then .error (.namelessDirective key)
      else
        match directive? (String.ofList word) (String.ofList name) with
        | some entry => .ok entry
        | none => .error (.unknownDirective key)
    | none =>
      match Tag.parse key with
      | .error fault => .error (.badTag key fault)
      | .ok tag =>
        match value with
        | .object _ => .ok (.child tag)
        | other => .error (.childNotObject key other.kind)

end Entry

end ReactiveViews
