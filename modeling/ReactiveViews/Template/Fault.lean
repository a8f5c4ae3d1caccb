import ReactiveViews.Expr.Fault
import ReactiveViews.Template.Tag
import ReactiveViews.Json

/-!
# Errors of evaluation, components and views

What can go wrong once an expression has been compiled: in its evaluation, in a component, or
in a view as a whole. Each kind of error is a type of causes with one function for its wording.
An error can have an error inside of it; `sources` lists those, outermost first.
-/

namespace ReactiveViews

/-- Why an evaluation fails. -/
inductive EvalError where
  /-- A call of something that is no function: the expression and the type found. -/
  | notCallable (expr found : String)
  /-- A walk through something that has no items: the type found. -/
  | notIterable (found : String)
  /-- A failure of a function of the host program. -/
  | host (message : String)
  deriving DecidableEq, Repr

/-- The wording of an evaluation error. -/
def EvalError.message : EvalError → String
  | notCallable expr found =>
    "call target in " ++ Text.quote expr ++ " is not a function (found " ++ found ++ ")"
  | notIterable found => "value is not iterable (found " ++ found ++ ")"
  | host message => message

/-- What a component can be asked to do. -/
inductive Ability where
  /-- Tell the value of an attribute. -/
  | getAttribute
  /-- Take the value of an attribute. -/
  | setAttribute
  /-- Take a handler of an event. -/
  | addListener
  /-- Show a child. -/
  | appendChild
  /-- Stop showing a child. -/
  | removeChild
  /-- Stop showing all children. -/
  | clearChildren
  /-- Tell the handlers of an event. -/
  | listeners
  deriving DecidableEq, Repr

/-- The name of an ability in messages. -/
def Ability.word : Ability → String
  | getAttribute => "get_attribute"
  | setAttribute => "set_attribute"
  | addListener => "add_event_listener"
  | appendChild => "append_child"
  | removeChild => "remove_child"
  | clearChildren => "clear_children"
  | listeners => "listeners"

/-- Why a component fails. -/
inductive ComponentError where
  /-- It was asked for what it cannot do. -/
  | notImplemented (ability : Ability)
  /-- A handler of an event failed. -/
  | handler (error : EvalError)
  /-- What it draws with failed. -/
  | renderer (message : String)
  deriving DecidableEq, Repr

namespace ComponentError

/-- The wording of a component error. -/
def message : ComponentError → String
  | notImplemented ability => "component does not implement `" ++ ability.word ++ "`"
  | handler error => "event handler failed: " ++ error.message
  | renderer message => "renderer error: " ++ message

/-- The errors inside. -/
def sources : ComponentError → List String
  | handler error => [error.message]
  | _ => []

end ComponentError

/-- Why a template is no description of a view. -/
inductive TemplateFault where
  /-- A key that is no tag descriptor. -/
  | badTag (src : String) (fault : TagFault)
  /-- A template that is no object. -/
  | notObject (kind : String)
  /-- A directive without a name behind its colon. -/
  | namelessDirective (key : String)
  /-- A word before the colon that is no directive. -/
  | unknownDirective (key : String)
  /-- A child whose description is no object. -/
  | childNotObject (key kind : String)
  /-- A directive outside of every node. -/
  | directiveAtRoot
  /-- A second list directive of a node. -/
  | secondRepeat
  /-- No template at all. -/
  | missing
  /-- A fault of the host program's own. -/
  | other (message : String)
  deriving DecidableEq, Repr

/-- The wording of a template fault. -/
def TemplateFault.message : TemplateFault → String
  | badTag src fault => "bad tag descriptor " ++ Text.quote src ++ ": " ++ fault.message
  | notObject kind => "a template must be an object, got " ++ kind
  | namelessDirective key => "directive `" ++ key ++ "` has no name"
  | unknownDirective key => "unknown directive `" ++ key ++ "`"
  | childNotObject key kind => "child `" ++ key ++ "` must map to an object, got " ++ kind
  | directiveAtRoot => "directives are not allowed at the template root"
  | secondRepeat => "a node takes at most one forEach"
  | missing => "no template was given to the application"
  | other message => message

/-- Why a view cannot be made, built or updated. -/
inductive ViewError where
  /-- An expression of the template is refused: the keys that lead to it. -/
  | expression (path : String) (fault : Fault)
  /-- The template is at fault; the keys that lead to the fault, if it is inside a view. -/
  | template (path : Option String) (fault : TemplateFault)
  /-- The text of the template is not JSON. -/
  | json
  /-- An expression cannot be evaluated. -/
  | eval (error : EvalError)
  /-- A component fails. -/
  | component (error : ComponentError)
  /-- The root of the template makes another number of elements than one. -/
  | rootCount (found : Nat)

namespace ViewError

/-- The wording of a view error. -/
def message : ViewError → String
  | expression path fault => "in template key `" ++ path ++ "`: " ++ fault.message
  | template path fault =>
    "template configuration error: " ++ (path.map (· ++ ": ")).getD "" ++ fault.message
  | json => "template is not valid JSON"
  | eval error => "evaluation failed: " ++ error.message
  | component error => error.message
  | rootCount found =>
    "template root must build exactly one component, built " ++ toString found

/-- The errors inside, outermost first. -/
def sources : ViewError → List String
  | expression _ fault => [fault.message]
  | eval error => [error.message]
  | component error => error.message :: error.sources
  | template _ _ | json | rootCount _ => []

end ViewError

end ReactiveViews
