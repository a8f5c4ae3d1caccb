import ReactiveViews.Template.View
import Mathlib.Data.List.Forall2

/-!
# Faults of templates

A template is compiled by a walk that goes down into an entry as soon as it meets it and stops at the
first fault. What it is to find does not depend on the walk: an entry is faulty or it is not, by its
key, its value, the entries in front of it and whether it stands at the root.

## The model

A `Place` is an entry with the keys that lead to its object and the entries in front of it there. The
entries of a template are those of its outermost object and those of the objects of its children
(`Template.Reaches`); the value of a directive is no object of the template, even if it is an object of
JSON. `Template.places` lists them depth first, in the order of the keys.

`Place.Faulty` says when an entry is at fault, and `Place.Blames` with which error.

A view holds an object (`Node.Holds`) if each list of its node has one item for each entry of its kind
and in their order, and the children hold the objects of the entries that are children. The two lists
that have one item at most, the list directive and the condition, are optional values of the node.

## What is proved

**Compiling finds the first fault** (`View.compile_finds_first_fault`). A template is compiled exactly if none of
its entries is faulty. Otherwise the error is that of its first faulty entry in depth-first order, and
names the keys that lead to it. The view of a template that is compiled holds every entry.

That the keys of an object differ is needed for the last part alone: a second condition would take the
place of the first. It is so in every template that is read from a text.
-/

namespace ReactiveViews

/-! ### Entries where they stand -/

/-- The kinds of entries. -/
inductive Kind where
  /-- An attribute that is set once. -/
  | once
  /-- An attribute that is set at every update. -/
  | bind
  /-- A handler. -/
  | on
  /-- A list. -/
  | forEach
  /-- A condition. -/
  | condition
  /-- A child. -/
  | child
  deriving DecidableEq

/-- The kind of an entry. -/
def Entry.kind : Entry → Kind
  | .once _ => .once
  | .bind _ => .bind
  | .on _ => .on
  | .forEach _ => .forEach
  | .condition => .condition
  | .child _ => .child

/-- The kind of a member of an object, unless its key or its value is refused. -/
def Kind.of? (member : String × Json) : Option Kind :=
  (Entry.classify member.1 member.2).toOption.map Entry.kind

/-- The members of an object that are of one kind. -/
def Kind.members (kind : Kind) (members : List (String × Json)) : List (String × Json) :=
  members.filter fun member => Kind.of? member = some kind

/-- An entry and where it stands in a template. -/
structure Place where
  /-- The keys that lead to its object. There are none at the root. -/
  above : List String
  /-- The entries in front of it in its object. -/
  before : List (String × Json)
  /-- Its key. -/
  key : String
  /-- Its value. -/
  value : Json

namespace Place

/-- The keys that lead to an entry, with `/` between them. -/
def path (p : Place) : String := String.intercalate "/" (p.above ++ [p.key])

/-- The kind of the entry, unless it is refused. -/
def kind? (p : Place) : Option Kind := Kind.of? (p.key, p.value)

/-- The entry is a directive. -/
def IsDirective (p : Place) : Prop := ∃ kind, p.kind? = some kind ∧ kind ≠ .child

/-- The entry is a list directive behind another one. -/
def Repeats (p : Place) : Prop :=
  p.kind? = some .forEach ∧ ∃ member ∈ p.before, Kind.of? member = some .forEach

/-- The entry is at fault. -/
def Faulty (p : Place) : Prop :=
  (∃ fault, Entry.classify p.key p.value = .error fault) ∨
  (p.IsDirective ∧ p.above = []) ∨
  p.Repeats ∨
  (p.IsDirective ∧ ∃ fault, (Source.compile p.value).result = .error fault)

/-- The error that an entry at fault is blamed with. -/
inductive Blames (p : Place) : ViewError → Prop where
  /-- Its key or the kind of its value is refused. -/
  | refused {fault : TemplateFault} (hrefused : Entry.classify p.key p.value = .error fault) :
    Blames p (.template (some p.path) fault)
  /-- It is a directive outside of every node. -/
  | atRoot (hdirective : p.IsDirective) (hroot : p.above = []) :
    Blames p (.template (some p.path) .directiveAtRoot)
  /-- It is the second list directive of its node. -/
  | second (hnode : p.above ≠ []) (hrepeats : p.Repeats) :
    Blames p (.template (some p.path) .secondRepeat)
  /-- Its expression is refused. -/
  | expression (hnode : p.above ≠ []) (hdirective : p.IsDirective) (hfirst : ¬ p.Repeats) {fault : Fault}
    (hfault : (Source.compile p.value).result = .error fault) : Blames p (.expression p.path fault)

theorem Blames.faulty {p : Place} {e : ViewError} (h : p.Blames e) : p.Faulty := by
  cases h with
  | refused hrefused => exact .inl ⟨_, hrefused⟩
  | atRoot hdirective hroot => exact .inr (.inl ⟨hdirective, hroot⟩)
  | second _ hrepeats => exact .inr (.inr (.inl hrepeats))
  | expression _ hdirective _ hfault => exact .inr (.inr (.inr ⟨hdirective, _, hfault⟩))

end Place

/-- The place `p` is an entry of the object `value`, to which the keys `above` lead, or of the object of
a child inside. -/
inductive Json.Reaches : List String → Json → Place → Prop where
  /-- An entry of the object itself. -/
  | here {above : List String} {before after : List (String × Json)} {key : String} {value : Json} :
    Reaches above (.object (before ++ (key, value) :: after)) ⟨above, before, key, value⟩
  /-- An entry inside of a child. -/
  | under {above : List String} {before after : List (String × Json)} {key : String} {value : Json}
    {p : Place} (hchild : Kind.of? (key, value) = some .child) (hinside : Reaches (above ++ [key]) value p) :
    Reaches above (.object (before ++ (key, value) :: after)) p

mutual

/-- The entries of the object to which the keys `above` lead, depth first. -/
def Json.places (above : List String) : Json → List Place
  | .object members => placesFrom above [] members
  | _ => []

/-- The entries from one on, depth first: behind an entry come those of its object, and then the next. -/
def placesFrom (above : List String) (before : List (String × Json)) : List (String × Json) → List Place
  | [] => []
  | (key, value) :: rest =>
    ⟨above, before, key, value⟩ ::
      ((if Kind.of? (key, value) = some .child then Json.places (above ++ [key]) value else []) ++
        placesFrom above (before ++ [(key, value)]) rest)

end

namespace Template

/-- The place is an entry of the template. -/
def Reaches (t : Template) (p : Place) : Prop := Json.Reaches [] (.object t.entries) p

/-- The entries of a template, depth first. -/
def places (t : Template) : List Place := placesFrom [] [] t.entries

/-- No object of the template has a key twice. -/
def Distinct (t : Template) : Prop := ∀ p, t.Reaches p → p.key ∉ p.before.map Prod.fst

/-- The first entry of the template that is at fault. -/
def FirstFault (t : Template) (p : Place) : Prop :=
  ∃ earlier later, t.places = earlier ++ p :: later ∧ (∀ q ∈ earlier, ¬ q.Faulty) ∧ p.Faulty

end Template

/-! ### What a view holds -/

/-- A directive as it is kept: its name and its compiled value. -/
def Shelved (directive : String → Entry) (member : String × Json) (kept : String × Source) : Prop :=
  Entry.classify member.1 member.2 = .ok (directive kept.1) ∧ (Source.compile member.2).result = .ok kept.2

/-- Each list of directives of a node has one item for each entry of its kind. -/
structure Node.Shelves (members : List (String × Json)) (node : Node Source) : Prop where
  once : List.Forall₂ (Shelved .once) (Kind.once.members members) node.once
  bind : List.Forall₂ (Shelved .bind) (Kind.bind.members members) node.bind
  on : List.Forall₂ (Shelved .on) (Kind.on.members members) node.on
  forEach : List.Forall₂ (Shelved .forEach) (Kind.forEach.members members) node.repetition.toList
  condition : List.Forall₂ (fun member source => (Source.compile member.2).result = .ok source)
    (Kind.condition.members members) node.condition.toList

mutual

/-- The node holds the object `value`, whose tag descriptor is known and to which the keys `chain`
lead. -/
inductive Node.Holds : List String → Tag → Json → Node Source → Prop where
  | object {chain : List String} {members : List (String × Json)} {node : Node Source}
    (hpath : node.path = String.intercalate "/" chain) (hshelves : node.Shelves members)
    (hchildren : Node.HoldsAll chain (Kind.child.members members) node.children) :
    Holds chain node.tag (.object members) node

/-- The nodes hold the objects of the children `members`, one by one. -/
inductive Node.HoldsAll : List String → List (String × Json) → List (Node Source) → Prop where
  | nil {above : List String} : HoldsAll above [] []
  | cons {above : List String} {key : String} {value : Json} {tag : Tag} {node : Node Source}
    {members : List (String × Json)} {nodes : List (Node Source)}
    (htag : Entry.classify key value = .ok (.child tag))
    (hnode : Node.Holds (above ++ [key]) tag value node) (hnodes : HoldsAll above members nodes) :
    HoldsAll above ((key, value) :: members) (node :: nodes)

end

/-- The view holds every entry of the template. -/
def View.Holds (t : Template) (view : View Source) : Prop :=
  Kind.child.members t.entries = t.entries ∧ Node.HoldsAll [] t.entries view.roots

/-! ### Places -/

mutual

/-- The list of the entries of an object has the entries of the object. -/
theorem Json.mem_places (above : List String) (p : Place) : (value : Json) →
    (p ∈ value.places above ↔ Json.Reaches above value p)
  | .object members => by
    rw [Json.places, mem_placesFrom above [] p members]
    constructor
    · rintro (⟨mid, key, value, after, rfl, rfl⟩ | ⟨mid, key, value, after, rfl, hchild, hinside⟩)
      · exact .here
      · exact .under hchild hinside
    · rintro (_ | ⟨hchild, hinside⟩)
      · exact .inl ⟨_, _, _, _, rfl, rfl⟩
      · exact .inr ⟨_, _, _, _, rfl, hchild, hinside⟩
  | .null | .bool _ | .integer _ | .float _ | .string _ | .array _ => by
    refine ⟨fun h => ?_, fun h => by cases h⟩
    simp [Json.places] at h

theorem mem_placesFrom (above : List String) (before : List (String × Json)) (p : Place) :
    (rest : List (String × Json)) → (p ∈ placesFrom above before rest ↔
      (∃ mid key value after, rest = mid ++ (key, value) :: after ∧ p = ⟨above, before ++ mid, key, value⟩) ∨
      ∃ mid key value after, rest = mid ++ (key, value) :: after ∧ Kind.of? (key, value) = some .child ∧
        Json.Reaches (above ++ [key]) value p)
  | [] => by simp [placesFrom]
  | (key, value) :: rest => by
    rw [placesFrom, List.mem_cons, List.mem_append, mem_placesFrom above (before ++ [(key, value)]) p rest]
    have hvalue : p ∈ (if Kind.of? (key, value) = some .child then value.places (above ++ [key]) else []) ↔
        Kind.of? (key, value) = some .child ∧ Json.Reaches (above ++ [key]) value p := by
      split <;> simp [*, Json.mem_places (above ++ [key]) p value]
    rw [hvalue]
    constructor
    · rintro (rfl | ⟨hchild, hinside⟩ | ⟨mid, k, v, after, rfl, rfl⟩ |
        ⟨mid, k, v, after, rfl, hchild, hinside⟩)
      · exact .inl ⟨[], key, value, rest, rfl, by simp⟩
      · exact .inr ⟨[], key, value, rest, rfl, hchild, hinside⟩
      · exact .inl ⟨(key, value) :: mid, k, v, after, rfl, by simp⟩
      · exact .inr ⟨(key, value) :: mid, k, v, after, rfl, hchild, hinside⟩
    · rintro (⟨_ | ⟨member, mid⟩, k, v, after, heq, rfl⟩ |
        ⟨_ | ⟨member, mid⟩, k, v, after, heq, hchild, hinside⟩) <;>
      obtain ⟨hmember, hrest⟩ := List.cons.inj heq
      · obtain ⟨rfl, rfl⟩ := Prod.mk.inj hmember
        exact .inl (by simp)
      · subst hmember
        exact .inr (.inr (.inl ⟨mid, k, v, after, hrest, by simp⟩))
      · obtain ⟨rfl, rfl⟩ := Prod.mk.inj hmember
        exact .inr (.inl ⟨hchild, hinside⟩)
      · subst hmember
        exact .inr (.inr (.inr ⟨mid, k, v, after, hrest, hchild, hinside⟩))

end

theorem Template.mem_places {t : Template} {p : Place} : p ∈ t.places ↔ t.Reaches p := by
  rw [Template.Reaches, ← Json.mem_places [] p, Json.places, Template.places]

/-- The keys that lead to an entry, from those that lead to its object. -/
theorem intercalate_snoc {chain : List String} (h : chain ≠ []) (key : String) :
    String.intercalate "/" (chain ++ [key]) = String.intercalate "/" chain ++ "/" ++ key := by
  refine String.toList_injective ?_
  simp only [String.toList_intercalate, String.toList_append, List.map_append, List.map_cons, List.map_nil]
  induction chain with
  | nil => exact absurd rfl h
  | cons first rest ih =>
    cases rest with
    | nil => simp
    | cons second rest => simp_all [List.intercalate_cons_cons]

/-! ### Kinds -/

theorem Kind.of?_eq_some {key : String} {value : Json} {entry : Entry}
    (h : Entry.classify key value = .ok entry) : Kind.of? (key, value) = some entry.kind := by
  simp [Kind.of?, h, Except.toOption]

theorem Kind.members_snoc (kind : Kind) (members : List (String × Json)) {key : String} {value : Json}
    {entry : Entry} (h : Entry.classify key value = .ok entry) :
    kind.members (members ++ [(key, value)]) =
      if entry.kind = kind then kind.members members ++ [(key, value)] else kind.members members := by
  rw [Kind.members, Kind.members, List.filter_append]
  split <;> simp [Kind.of?_eq_some h, *]

/-- What an entry can be: a condition, a directive with a name, or a child. -/
theorem Entry.classify_cases {key : String} {value : Json} {entry : Entry}
    (h : Entry.classify key value = .ok entry) :
    (key = "if" ∧ entry = .condition) ∨ (∃ word name, Entry.directive? word name = some entry) ∨
      ∃ tag members, entry = .child tag ∧ value = .object members := by
  unfold Entry.classify at h
  split at h
  · next hkey =>
    cases h
    exact .inl ⟨hkey, rfl⟩
  · split at h
    · split at h
      · cases h
      · split at h
        · next hdirective =>
          cases h
          exact .inr (.inl ⟨_, _, hdirective⟩)
        · cases h
    · split at h
      · cases h
      · split at h
        · cases h
          exact .inr (.inr ⟨_, _, rfl, rfl⟩)
        · cases h

theorem Entry.kind_of_directive {word name : String} {entry : Entry}
    (h : Entry.directive? word name = some entry) : entry.kind ≠ .condition ∧ entry.kind ≠ .child := by
  unfold Entry.directive? at h
  grind [Entry.kind]

theorem Kind.exists_of_of? {member : String × Json} {kind : Kind} (h : Kind.of? member = some kind) :
    ∃ entry, Entry.classify member.1 member.2 = .ok entry ∧ entry.kind = kind := by
  unfold Kind.of? at h
  cases hentry : Entry.classify member.1 member.2 with
  | error fault => simp [hentry, Except.toOption] at h
  | ok entry => exact ⟨entry, rfl, by simpa [hentry, Except.toOption] using h⟩

/-- Only the key `if` makes a condition. -/
theorem Kind.key_of_condition {member : String × Json} (h : Kind.of? member = some .condition) :
    member.1 = "if" := by
  obtain ⟨entry, hentry, hkind⟩ := Kind.exists_of_of? h
  obtain ⟨hkey, -⟩ | ⟨_, _, hdirective⟩ | ⟨_, _, rfl, -⟩ := Entry.classify_cases hentry
  · exact hkey
  · exact absurd hkind (Entry.kind_of_directive hdirective).1
  · cases hkind

/-- The value of a child is an object. -/
theorem Entry.object_of_child {key : String} {value : Json} {tag : Tag}
    (h : Entry.classify key value = .ok (.child tag)) : ∃ members, value = .object members := by
  obtain ⟨-, heq⟩ | ⟨_, _, hdirective⟩ | ⟨_, members, -, rfl⟩ := Entry.classify_cases h
  · cases heq
  · exact absurd rfl (Entry.kind_of_directive hdirective).2
  · exact ⟨members, rfl⟩

/-! ### Keeping entries -/

/-- A node with one more directive. -/
def Node.shelve (node : Node Source) (source : Source) : Entry → Node Source
  | .once name => { node with once := node.once ++ [(name, source)] }
  | .bind name => { node with bind := node.bind ++ [(name, source)] }
  | .on event => { node with on := node.on ++ [(event, source)] }
  | .forEach name => { node with repetition := some (name, source) }
  | .condition => { node with condition := some source }
  | .child _ => node

section Entries

variable {node : Node Source} {before rest : List (String × Json)} {key : String} {value : Json}
  {entry : Entry}

/-- A directive is compiled and kept before the next entry is looked at. -/
theorem Node.compileEntries_directive (hentry : Entry.classify key value = .ok entry)
    (hkind : entry.kind ≠ .child) (hfirst : entry.kind = .forEach → node.repetition = none) :
    (node.compileEntries ((key, value) :: rest)).result =
      ((Source.compile value).result.mapError (.expression (node.path ++ "/" ++ key))).bind fun source =>
        ((node.shelve source entry).compileEntries rest).result := by
  rw [Node.compileEntries]
  simp only [Traced.result_bind, Traced.result_lift, Entry.classifyAt, hentry]
  cases entry with
  | forEach name => simp [hfirst rfl, Source.compileAt, Node.shelve, Except.mapError, Except.bind]
  | child tag => exact absurd rfl hkind
  | _ => simp [Source.compileAt, Node.shelve, Except.mapError, Except.bind]

theorem Node.compileEntries_child {tag : Tag} (hentry : Entry.classify key value = .ok (.child tag)) :
    (node.compileEntries ((key, value) :: rest)).result =
      (Node.compile tag (node.path ++ "/" ++ key) value).result.bind fun child =>
        (Node.compileEntries { node with children := node.children ++ [child] } rest).result := by
  rw [Node.compileEntries]
  simp [Entry.classifyAt, hentry, Except.mapError, Except.bind]

theorem Node.compileEntries_second {name : String} (hentry : Entry.classify key value = .ok (.forEach name))
    (hsecond : node.repetition.isSome) :
    (node.compileEntries ((key, value) :: rest)).result =
      .error (.template (some (node.path ++ "/" ++ key)) .secondRepeat) := by
  rw [Node.compileEntries]
  simp [Entry.classifyAt, hentry, Except.mapError, Except.bind, hsecond]

theorem Node.compileEntries_refused {fault : TemplateFault}
    (hrefused : Entry.classify key value = .error fault) :
    (node.compileEntries ((key, value) :: rest)).result =
      .error (.template (some (node.path ++ "/" ++ key)) fault) := by
  rw [Node.compileEntries]
  simp [Entry.classifyAt, hrefused, Except.mapError, Except.bind]

theorem Kind.members_eq_nil_iff {kind : Kind} {members : List (String × Json)} :
    kind.members members = [] ↔ ∀ member ∈ members, Kind.of? member ≠ some kind := by
  simp [Kind.members, List.filter_eq_nil_iff]

/-- A node has a list directive if and only if one of the entries that it keeps is one. -/
theorem Node.Shelves.isSome_iff (h : node.Shelves before) :
    node.repetition.isSome ↔ ∃ member ∈ before, Kind.of? member = some .forEach := by
  have hlength := h.forEach.length_eq
  cases hrepetition : node.repetition with
  | none =>
    rw [hrepetition] at hlength
    have hnone := Kind.members_eq_nil_iff.mp (List.eq_nil_of_length_eq_zero hlength)
    simpa using hnone
  | some kept =>
    rw [hrepetition] at hlength
    have hsome : Kind.forEach.members before ≠ [] := fun heq => by simp [heq] at hlength
    rw [Ne, Kind.members_eq_nil_iff] at hsome
    simpa using hsome

/-- A node whose entries have another key has no condition. -/
theorem Node.Shelves.condition_eq_none (h : node.Shelves before) (hkey : "if" ∉ before.map Prod.fst) :
    node.condition = none := by
  have hnone : Kind.condition.members before = [] :=
    Kind.members_eq_nil_iff.mpr fun member hmember hkind =>
      hkey (Kind.key_of_condition hkind ▸ List.mem_map_of_mem hmember)
  have hlength := h.condition.length_eq
  rw [hnone] at hlength
  simpa using hlength.symm

theorem forall₂_snoc {α β : Type} {R : α → β → Prop} {l : List α} {l' : List β} {a : α} {b : β}
    (h : List.Forall₂ R l l') (hab : R a b) : List.Forall₂ R (l ++ [a]) (l' ++ [b]) :=
  List.rel_append h (.cons hab .nil)

/-- One more directive is kept: the list of its kind has one more item, and the others are as they
were. -/
theorem Node.Shelves.shelve (h : node.Shelves before) {source : Source}
    (hentry : Entry.classify key value = .ok entry) (hsource : (Source.compile value).result = .ok source)
    (hfirst : entry.kind = .forEach → node.repetition = none)
    (hcondition : entry.kind = .condition → node.condition = none) :
    (node.shelve source entry).Shelves (before ++ [(key, value)]) := by
  obtain ⟨honce, hbind, hon, hforEach, hcond⟩ := h
  cases entry <;> constructor <;> simp only [Kind.members_snoc _ _ hentry, Entry.kind, Node.shelve] <;>
    try assumption
  · exact forall₂_snoc honce ⟨hentry, hsource⟩
  · exact forall₂_snoc hbind ⟨hentry, hsource⟩
  · exact forall₂_snoc hon ⟨hentry, hsource⟩
  · rw [hfirst rfl] at hforEach
    exact forall₂_snoc hforEach ⟨hentry, hsource⟩
  · rw [hcondition rfl] at hcond
    exact forall₂_snoc hcond hsource

/-- A child is kept in no list of directives. -/
theorem Node.Shelves.child (h : node.Shelves before) {tag : Tag}
    (hentry : Entry.classify key value = .ok (.child tag)) (children : List (Node Source)) :
    Node.Shelves (before ++ [(key, value)]) { node with children := children } := by
  obtain ⟨honce, hbind, hon, hforEach, hcond⟩ := h
  constructor <;> simpa [Kind.members_snoc _ _ hentry, Entry.kind]

theorem Node.HoldsAll.snoc {above : List String} {members : List (String × Json)} {nodes : List (Node Source)}
    {child : Node Source} {tag : Tag} (h : Node.HoldsAll above members nodes)
    (hentry : Entry.classify key value = .ok (.child tag))
    (hchild : Node.Holds (above ++ [key]) tag value child) :
    Node.HoldsAll above (members ++ [(key, value)]) (nodes ++ [child]) := by
  induction members generalizing nodes with
  | nil =>
    cases h
    exact .cons hentry hchild .nil
  | cons member rest ih =>
    cases h with
    | cons htag hnode hnodes => exact .cons htag hnode (ih hnodes)

end Entries

/-! ### Faults and blame -/

namespace Place

variable {p : Place} {entry : Entry}

theorem kind?_eq_some (h : Entry.classify p.key p.value = .ok entry) : p.kind? = some entry.kind :=
  Kind.of?_eq_some h

theorem isDirective_iff (h : Entry.classify p.key p.value = .ok entry) :
    p.IsDirective ↔ entry.kind ≠ .child := by
  simp [IsDirective, kind?_eq_some h]

/-- A child is not at fault itself. -/
theorem not_faulty_child {tag : Tag} (h : Entry.classify p.key p.value = .ok (.child tag)) : ¬ p.Faulty := by
  simp [Faulty, Repeats, isDirective_iff h, kind?_eq_some h, Entry.kind, h]

/-- A directive of a node is not at fault if it is the first list directive, should it be one, and its
value is compiled. -/
theorem not_faulty_directive {source : Source} (h : Entry.classify p.key p.value = .ok entry)
    (hnode : p.above ≠ []) (hfirst : ¬ p.Repeats) (hsource : (Source.compile p.value).result = .ok source) :
    ¬ p.Faulty := by
  simp [Faulty, h, hnode, hfirst, hsource]

end Place

/-- A result agrees with the faults of entries, listed in order: it is good if there are none, and else
the error that the first entry at fault is blamed with. -/
def Locates {α : Type} (places : List Place) (Good : α → Prop) : Except ViewError α → Prop
  | .ok a => (∀ p ∈ places, ¬ p.Faulty) ∧ Good a
  | .error e => ∃ earlier p later, places = earlier ++ p :: later ∧ (∀ q ∈ earlier, ¬ q.Faulty) ∧ p.Blames e

namespace Locates

variable {α β : Type} {places others : List Place} {Good : α → Prop} {Better : β → Prop} {p : Place}

/-- The entries of one part of a template come before those of the next. -/
theorem bind {x : Except ViewError α} {f : α → Except ViewError β} (hx : Locates places Good x)
    (hf : ∀ a, Good a → Locates others Better (f a)) : Locates (places ++ others) Better (x.bind f) := by
  cases x with
  | error e =>
    obtain ⟨earlier, p, later, rfl, hearlier, hblames⟩ := hx
    exact ⟨earlier, p, later ++ others, by simp, hearlier, hblames⟩
  | ok a =>
    obtain ⟨hplaces, hgood⟩ := hx
    have hrest := hf a hgood
    simp only [Except.bind]
    cases hfa : f a with
    | error e =>
      rw [hfa] at hrest
      obtain ⟨earlier, p, later, rfl, hearlier, hblames⟩ := hrest
      refine ⟨places ++ earlier, p, later, by simp, fun q hq => ?_, hblames⟩
      exact (List.mem_append.mp hq).elim (hplaces q) (hearlier q)
    | ok b =>
      rw [hfa] at hrest
      exact ⟨fun q hq => (List.mem_append.mp hq).elim (hplaces q) (hrest.1 q), hrest.2⟩

theorem blamed {e : ViewError} (h : p.Blames e) : Locates (p :: others) Better (.error e) :=
  ⟨[], p, others, rfl, fun _ hq => absurd hq List.not_mem_nil, h⟩

theorem cons {x : Except ViewError α} (hp : ¬ p.Faulty) (h : Locates others Good x) :
    Locates (p :: others) Good x := by
  have hone : Locates [p] (fun _ : Unit => True) (.ok ()) :=
    ⟨fun _ hq => List.mem_singleton.mp hq ▸ hp, trivial⟩
  exact hone.bind fun _ _ => h

theorem imp {x : Except ViewError α} {Other : α → Prop} (h : Locates places Good x)
    (hgood : ∀ a, Good a → Other a) : Locates places Other x := by
  cases x with
  | error e => exact h
  | ok a => exact ⟨h.1, hgood a h.2⟩

/-- The value of a directive is compiled where no other fault is found. -/
theorem compile {entry : Entry} (hentry : Entry.classify p.key p.value = .ok entry)
    (hkind : entry.kind ≠ .child) (hnode : p.above ≠ []) (hfirst : ¬ p.Repeats) :
    Locates [p] (fun source => (Source.compile p.value).result = .ok source)
      ((Source.compile p.value).result.mapError (.expression p.path)) := by
  cases hcompile : (Source.compile p.value).result with
  | error fault =>
    exact .blamed (.expression hnode ((p.isDirective_iff hentry).mpr hkind) hfirst hcompile)
  | ok source =>
    exact ⟨fun _ hq => List.mem_singleton.mp hq ▸ p.not_faulty_directive hentry hnode hfirst hcompile, rfl⟩

end Locates

/-! ### Compiling -/

/-- What compiling entries establishes of the node they are compiled into. -/
structure Node.Gathers (above : List String) (members : List (String × Json)) (node : Node Source) : Prop where
  /-- The keys that lead to the node. -/
  path : node.path = String.intercalate "/" above
  /-- The directives are kept. -/
  shelves : node.Shelves members
  /-- The children are held. -/
  children : Node.HoldsAll above (Kind.child.members members) node.children

theorem Node.Gathers.bare {above : List String} (tag : Tag) :
    (Node.bare tag (String.intercalate "/" above)).Gathers above [] :=
  ⟨rfl, ⟨.nil, .nil, .nil, .nil, .nil⟩, .nil⟩

section Step

variable {above : List String} {before rest : List (String × Json)} {node : Node Source} {key : String}
  {value : Json} {Good : Node Source → Prop}

theorem Node.Gathers.path_eq (h : node.Gathers above before) (habove : above ≠ []) :
    (Place.mk above before key value).path = node.path ++ "/" ++ key := by
  rw [h.path]
  exact intercalate_snoc habove key

theorem Node.Gathers.repeats_iff (h : node.Gathers above before) :
    (Place.mk above before key value).Repeats ↔
      Kind.of? (key, value) = some .forEach ∧ node.repetition.isSome := by
  rw [h.shelves.isSome_iff]
  rfl

theorem placesFrom_child {tag : Tag} (hentry : Entry.classify key value = .ok (.child tag)) :
    placesFrom above before ((key, value) :: rest) =
      ⟨above, before, key, value⟩ ::
        (value.places (above ++ [key]) ++ placesFrom above (before ++ [(key, value)]) rest) := by
  have hchild : Kind.of? (key, value) = some .child := Kind.of?_eq_some hentry
  rw [placesFrom, if_pos hchild]

theorem placesFrom_directive {entry : Entry} (hentry : Entry.classify key value = .ok entry)
    (hkind : entry.kind ≠ .child) :
    placesFrom above before ((key, value) :: rest) =
      ⟨above, before, key, value⟩ :: placesFrom above (before ++ [(key, value)]) rest := by
  have hother : ¬ Kind.of? (key, value) = some .child := by simpa [Kind.of?_eq_some hentry] using hkind
  rw [placesFrom, if_neg hother, List.nil_append]

/-- An entry that is refused ends the compiling. -/
theorem Node.Gathers.refused (h : node.Gathers above before) (habove : above ≠ []) {fault : TemplateFault}
    (hrefused : Entry.classify key value = .error fault) :
    Locates (placesFrom above before ((key, value) :: rest)) Good
      (node.compileEntries ((key, value) :: rest)).result := by
  rw [Node.compileEntries_refused hrefused, ← h.path_eq habove, placesFrom]
  exact .blamed (.refused hrefused)

/-- A directive is at fault, or is kept before the entries behind it are looked at. -/
theorem Node.Gathers.directive (h : node.Gathers above before) (habove : above ≠ []) {entry : Entry}
    (hentry : Entry.classify key value = .ok entry) (hkind : entry.kind ≠ .child)
    (hkey : key ∉ before.map Prod.fst)
    (hrest : ∀ node' : Node Source, node'.tag = node.tag → node'.Gathers above (before ++ [(key, value)]) →
      Locates (placesFrom above (before ++ [(key, value)]) rest) Good (node'.compileEntries rest).result) :
    Locates (placesFrom above before ((key, value) :: rest)) Good
      (node.compileEntries ((key, value) :: rest)).result := by
  rw [placesFrom_directive hentry hkind]
  by_cases hrepeats : (Place.mk above before key value).Repeats
  · obtain ⟨hforEach, hsecond⟩ := h.repeats_iff.mp hrepeats
    obtain ⟨name, rfl⟩ : ∃ name, entry = .forEach name := by
      rw [Kind.of?_eq_some hentry] at hforEach
      cases entry <;> simp_all [Entry.kind]
    rw [Node.compileEntries_second hentry hsecond, ← h.path_eq habove]
    exact .blamed (.second habove hrepeats)
  · have hfirst : entry.kind = .forEach → node.repetition = none := fun hforEach => by
      simpa [h.repeats_iff, Kind.of?_eq_some hentry, hforEach] using hrepeats
    have hcondition : entry.kind = .condition → node.condition = none := fun hcondition => by
      have hif := Kind.key_of_condition ((Kind.of?_eq_some hentry).trans (congrArg some hcondition))
      exact h.shelves.condition_eq_none (hif ▸ hkey)
    rw [Node.compileEntries_directive hentry hkind hfirst, ← h.path_eq habove]
    refine (Locates.compile hentry hkind habove hrepeats).bind fun source hsource => ?_
    refine hrest (node.shelve source entry) ?_ ⟨?_, h.shelves.shelve hentry hsource hfirst hcondition, ?_⟩
    · cases entry <;> rfl
    · cases entry <;> exact h.path
    · rw [Kind.members_snoc _ _ hentry, if_neg hkind]
      cases entry <;> exact h.children

/-- A child is compiled before the entries behind it are looked at. -/
theorem Node.Gathers.child (h : node.Gathers above before) {tag : Tag}
    (hentry : Entry.classify key value = .ok (.child tag))
    (hchild : Locates (value.places (above ++ [key])) (Node.Holds (above ++ [key]) tag value)
      (Node.compile tag (node.path ++ "/" ++ key) value).result)
    (hrest : ∀ node' : Node Source, node'.tag = node.tag → node'.Gathers above (before ++ [(key, value)]) →
      Locates (placesFrom above (before ++ [(key, value)]) rest) Good (node'.compileEntries rest).result) :
    Locates (placesFrom above before ((key, value) :: rest)) Good
      (node.compileEntries ((key, value) :: rest)).result := by
  rw [placesFrom_child hentry, Node.compileEntries_child hentry]
  refine .cons (Place.not_faulty_child hentry) (hchild.bind fun child hholds => ?_)
  refine hrest _ rfl ⟨h.path, h.shelves.child hentry _, ?_⟩
  have hkind : (Entry.child tag).kind = .child := rfl
  rw [Kind.members_snoc _ _ hentry, if_pos hkind]
  exact h.children.snoc hentry hholds

end Step

mutual

/-- Compiling an object finds the first fault in it, or gives a node that holds it. -/
theorem Node.compile_locates {chain : List String} (hchain : chain ≠ []) (tag : Tag) : (value : Json) →
    (∃ members, value = .object members) →
    (∀ p ∈ value.places chain, p.key ∉ p.before.map Prod.fst) →
    Locates (value.places chain) (Node.Holds chain tag value)
      (Node.compile tag (String.intercalate "/" chain) value).result
  | .object members, _, hdistinct => by
    rw [Json.places] at hdistinct ⊢
    have hentries := Node.compileEntries_locates hchain members [] _ (.bare tag) hdistinct
    rw [Node.compile, Traced.result_bind]
    refine hentries.imp ?_
    rintro node ⟨htag, hpath, hshelves, hchildren⟩
    have hnode := Node.Holds.object hpath hshelves hchildren
    rwa [htag] at hnode
  | .null, hobject, _ | .bool _, hobject, _ | .integer _, hobject, _ | .float _, hobject, _
  | .string _, hobject, _ | .array _, hobject, _ => by
    obtain ⟨_, heq⟩ := hobject
    cases heq

/-- Compiling entries finds the first fault in them, or gives a node that gathers them and those in
front of them. -/
theorem Node.compileEntries_locates {above : List String} (habove : above ≠ []) :
    (rest : List (String × Json)) → (before : List (String × Json)) → (node : Node Source) →
    (hgathers : node.Gathers above before) →
    (∀ p ∈ placesFrom above before rest, p.key ∉ p.before.map Prod.fst) →
    Locates (placesFrom above before rest)
      (fun node' => node'.tag = node.tag ∧ node'.Gathers above (before ++ rest)) (node.compileEntries rest).result
  | [], before, node, hgathers, _ => by
    rw [Node.compileEntries, placesFrom, List.append_nil]
    exact ⟨fun _ hp => absurd hp List.not_mem_nil, rfl, hgathers⟩
  | (key, value) :: rest, before, node, hgathers, hdistinct => by
    have hkey : key ∉ before.map Prod.fst :=
      hdistinct ⟨above, before, key, value⟩ (by rw [placesFrom]; exact List.mem_cons_self)
    have hbehind : ∀ p ∈ placesFrom above (before ++ [(key, value)]) rest, p.key ∉ p.before.map Prod.fst :=
      fun p hp => hdistinct p (by
        rw [placesFrom]
        exact List.mem_cons_of_mem _ (List.mem_append_right _ hp))
    have hrest : ∀ node' : Node Source, node'.tag = node.tag →
        node'.Gathers above (before ++ [(key, value)]) → Locates (placesFrom above (before ++ [(key, value)]) rest)
          (fun node'' => node''.tag = node.tag ∧ node''.Gathers above (before ++ (key, value) :: rest))
          (node'.compileEntries rest).result := fun node' htag hgathers' => by
      have hlocates := Node.compileEntries_locates habove rest _ node' hgathers' hbehind
      rwa [List.append_assoc, htag] at hlocates
    cases hentry : Entry.classify key value with
    | error fault => exact hgathers.refused habove hentry
    | ok entry =>
      by_cases hkind : entry.kind = .child
      · obtain ⟨tag, rfl⟩ : ∃ tag, entry = .child tag := by cases entry <;> simp_all [Entry.kind]
        refine hgathers.child hentry ?_ hrest
        rw [hgathers.path, ← intercalate_snoc habove]
        refine Node.compile_locates (by simp) tag value (Entry.object_of_child hentry) fun p hp => hdistinct p ?_
        rw [placesFrom_child hentry]
        exact List.mem_cons_of_mem _ (List.mem_append_left _ hp)
      · exact hgathers.directive habove hentry hkind hkey hrest

end

/-- Compiling the entries of a template finds the first fault in them, or gives nodes that hold them. -/
theorem Node.compileRoots_locates (before entries : List (String × Json))
    (hdistinct : ∀ p ∈ placesFrom [] before entries, p.key ∉ p.before.map Prod.fst) :
    Locates (placesFrom [] before entries)
      (fun roots => Kind.child.members entries = entries ∧ Node.HoldsAll [] entries roots)
      (Node.compileRoots entries).result := by
  induction entries generalizing before with
  | nil => exact ⟨fun _ hp => absurd hp List.not_mem_nil, rfl, .nil⟩
  | cons entry rest ih =>
    obtain ⟨key, value⟩ := entry
    have hpath : (Place.mk [] before key value).path = key := rfl
    have hbehind : ∀ p ∈ placesFrom [] (before ++ [(key, value)]) rest, p.key ∉ p.before.map Prod.fst :=
      fun p hp => hdistinct p (by
        rw [placesFrom]
        exact List.mem_cons_of_mem _ (List.mem_append_right _ hp))
    rw [Node.compileRoots, Traced.result_bind, Traced.result_lift, Entry.classifyAt]
    cases hentry : Entry.classify key value with
    | error fault =>
      rw [placesFrom]
      exact .blamed (hpath ▸ .refused hentry)
    | ok entry =>
      by_cases hkind : entry.kind = .child
      · obtain ⟨tag, rfl⟩ : ∃ tag, entry = .child tag := by cases entry <;> simp_all [Entry.kind]
        have hvalue : Locates (value.places [key]) (Node.Holds [key] tag value)
            (Node.compile tag key value).result :=
          Node.compile_locates (by simp) tag value (Entry.object_of_child hentry) fun p hp => hdistinct p (by
            rw [placesFrom_child hentry]
            exact List.mem_cons_of_mem _ (List.mem_append_left _ hp))
        rw [placesFrom_child hentry]
        simp only [Except.mapError, Except.bind, Traced.result_bind]
        refine .cons (Place.not_faulty_child hentry) (hvalue.bind fun root hroot => ?_)
        rw [← List.append_nil (placesFrom _ _ _)]
        refine (ih _ hbehind).bind fun roots hroots => ⟨fun _ hp => absurd hp List.not_mem_nil, ?_, ?_⟩
        · rw [Kind.members, List.filter_cons_of_pos (by simp [Kind.of?_eq_some hentry, Entry.kind])]
          exact congrArg _ hroots.1
        · exact .cons hentry hroot hroots.2
      · rw [placesFrom_directive hentry hkind]
        have hdirective := ((Place.mk [] before key value).isDirective_iff hentry).mpr hkind
        cases entry with
        | child tag => exact absurd rfl hkind
        | _ => exact .blamed (hpath ▸ .atRoot hdirective rfl)

/-! ### Views -/

/-- The error names the keys `path` that lead to an entry: as its path, or as the beginning of what it
says about the template. -/
def ViewError.Names (path : String) : ViewError → Prop
  | .expression keys _ => keys = path
  | .template keys fault => (ViewError.template keys fault).message =
      "template configuration error: " ++ (path ++ ": ") ++ fault.message
  | _ => False

theorem Place.Blames.names {p : Place} {e : ViewError} (h : p.Blames e) : e.Names p.path := by
  cases h <;> rfl

/-- No object of the template has a key twice, which can be seen from the list of its entries. -/
theorem Template.distinct_iff {t : Template} :
    t.Distinct ↔ ∀ p ∈ t.places, p.key ∉ p.before.map Prod.fst := by
  simp only [Template.Distinct, Template.mem_places]

/-- **Compiling finds the first fault.** A template is compiled exactly if none of its entries is at
fault. An error is the one that the first entry at fault, depth first, is blamed with, and names the keys
that lead to it. The view of a template that is compiled holds every entry once, in the list of its
kind and in the order of the keys. -/
theorem View.compile_finds_first_fault {t : Template} (hkeys : t.Distinct) :
    ((∃ view, (View.compile t).result = .ok view) ↔ ∀ p, t.Reaches p → ¬ p.Faulty) ∧
    (∀ e, (View.compile t).result = .error e → ∃ p, t.FirstFault p ∧ p.Blames e ∧ e.Names p.path) ∧
    ∀ view, (View.compile t).result = .ok view → view.Holds t := by
  have hlocates := Node.compileRoots_locates [] t.entries (Template.distinct_iff.mp hkeys)
  have hresult : (View.compile t).result = (Node.compileRoots t.entries).result.map View.mk :=
    Traced.result_map _ _
  rw [hresult]
  cases hroots : (Node.compileRoots t.entries).result with
  | error e =>
    rw [hroots] at hlocates
    obtain ⟨earlier, p, later, hplaces, hearlier, hblames⟩ := hlocates
    have hreaches : t.Reaches p := by
      rw [← Template.mem_places, Template.places, hplaces]
      exact List.mem_append_right _ List.mem_cons_self
    refine ⟨⟨?_, fun hsound => absurd hblames.faulty (hsound p hreaches)⟩, ?_, ?_⟩
    · rintro ⟨view, hview⟩
      cases hview
    · rintro _ ⟨⟩
      exact ⟨p, ⟨earlier, later, hplaces, hearlier, hblames.faulty⟩, hblames, hblames.names⟩
    · rintro view ⟨⟩
  | ok roots =>
    rw [hroots] at hlocates
    obtain ⟨hplaces, hholds⟩ := hlocates
    refine ⟨⟨fun _ p hp => hplaces p (Template.mem_places.mpr hp), fun _ => ⟨⟨roots⟩, rfl⟩⟩, ?_, ?_⟩
    · rintro e ⟨⟩
    · rintro view ⟨⟩
      exact hholds

/-- A template with two faults, the first of which is further inside. -/
def agenda : Template where
  entries := [
    ("ul#tasks", .object [
      ("bind:title", .string "\x7b\x7b title \x7d\x7d"),
      ("li.task", .object [
        ("forEach:task", .string "\x7b\x7b tasks \x7d\x7d"),
        ("forEach:other", .string "\x7b\x7b tasks \x7d\x7d")]),
      ("p", .null)]),
    ("footer", .object [("click:", .string "close")])]

theorem agenda_distinct : agenda.Distinct := Template.distinct_iff.mpr (by decide +kernel)

/-- What is said about a template that is refused. -/
def Template.complaint (t : Template) : Option String :=
  match (View.compile t).result with
  | .error e => some e.message
  | .ok _ => none

theorem Template.fails_of_complaint {t : Template} {text : String} (h : t.complaint = some text) :
    ∃ e, (View.compile t).result = .error e ∧ e.message = text := by
  unfold Template.complaint at h
  split at h
  · next e hresult => exact ⟨e, hresult, Option.some.inj h⟩
  · cases h

theorem agenda_complaint : agenda.complaint = some
    "template configuration error: ul#tasks/li.task/forEach:other: a node takes at most one forEach" := by
  decide +kernel

/-- The first fault of the template is its second list directive. -/
theorem View.compile_finds_first_fault_agenda :
    agenda.Distinct ∧ ∃ e, (View.compile agenda).result = .error e ∧
      e.message =
        "template configuration error: ul#tasks/li.task/forEach:other: a node takes at most one forEach" ∧
      ∃ p, agenda.FirstFault p ∧ p.Blames e := by
  obtain ⟨e, hresult, hmessage⟩ := Template.fails_of_complaint agenda_complaint
  obtain ⟨p, hfirst, hblames, -⟩ := (View.compile_finds_first_fault agenda_distinct).2.1 e hresult
  exact ⟨agenda_distinct, e, hresult, hmessage, p, hfirst, hblames⟩

end ReactiveViews
