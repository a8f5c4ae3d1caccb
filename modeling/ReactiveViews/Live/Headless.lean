import ReactiveViews.Live.World

/-!
# Components that draw nothing

A headless component remembers what it was told: attributes in the order in which they were
first set, handlers in the order in which they were added, and the children it shows. A child
can be shown several times; removing it removes it everywhere, and is refused if it is not
there.
-/

namespace ReactiveViews.Headless

/-- A component without attributes, handlers and children. -/
def new (tag : String) : Headless := ⟨tag, [], [], []⟩

/-- Sets an attribute. -/
def setAttribute (h : Headless) (name : String) (v : Value) : Headless :=
  { h with attributes := h.attributes.put name v }

/-- The value of an attribute, undefined if it was never set. -/
def attributeValue (h : Headless) (name : String) : Value :=
  (h.attributes.get? name).getD .undefined

/-- The handlers of an event. -/
def handlers (h : Headless) (event : String) : List Handler := (h.listeners.get? event).getD []

/-- Adds a handler. -/
def addListener (h : Headless) (event : String) (handler : Handler) : Headless :=
  { h with listeners := h.listeners.put event (h.handlers event ++ [handler]) }

/-- Shows a child after those shown before. -/
def mount (h : Headless) (child : ElementId) : Headless :=
  { h with mounted := h.mounted ++ [child] }

/-- Stops showing a child, wherever it is shown. -/
def unmount (h : Headless) (child : ElementId) : Except ComponentError Headless :=
  if child ∈ h.mounted then .ok { h with mounted := h.mounted.filter (· ≠ child) }
  else .error (.renderer (child.text ++ " is not mounted on <" ++ h.tag ++ ">"))

/-- Stops showing all children. -/
def clear (h : Headless) : Headless := { h with mounted := [] }

theorem unmount_eq_ok_iff {h : Headless} {child : ElementId} :
    (∃ h', h.unmount child = .ok h') ↔ child ∈ h.mounted := by
  simp only [unmount]
  split <;> simp_all

end ReactiveViews.Headless
