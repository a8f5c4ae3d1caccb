import ReactiveViews.Proofs.Live.Growing

/-!
# Outlines of pictures

The outline of a tree is told by what there is to see of it, so trees that look alike have the same
outline. An outline goes at most as deep as there are elements; that is enough, since the elements on
a way down are all different.

## What is proved

`Shows.outline_eq`: the outline of a tree is the outline of its picture.
-/

namespace ReactiveViews

variable {σ : Type}

/-! ### Outlines -/

/-- The lines of attributes: all but those that the tag tells. -/
def Fields.lines : Fields (Option String) → Option (List String)
  | [] => some []
  | (name, text) :: rest =>
    if name = "id" ∨ name = "class" then lines rest
    else do
      let text ← text
      return (name ++ "=" ++ text) :: (← lines rest)

mutual

/-- The outline of a picture. -/
def Picture.outline (depth : Nat) : Picture → Option String
  | ⟨tag, attributes, children⟩ => do
    let lines ← Fields.lines attributes
    let indent := String.ofList (List.replicate (2 * depth) ' ')
    let shown := if lines.isEmpty then "" else " [" ++ String.intercalate ", " lines ++ "]"
    let below ← Picture.outlineAll (depth + 1) children
    return indent ++ tag.text ++ shown ++ "\n" ++ below

/-- The outlines of several pictures, one after the other. -/
def Picture.outlineAll (depth : Nat) : List Picture → Option String
  | [] => some ""
  | picture :: rest => do
    let first ← picture.outline depth
    return first ++ (← Picture.outlineAll depth rest)

end

/-! ### Ways down -/

/-- Elements on a way down to another: they are there, are different, and have all been made before
anything inside of that one. -/
structure WayDown (w : World σ) (path : List ElementId) (e : ElementId) : Prop where
  /-- No element is there twice. -/
  nodup : path.Nodup
  /-- The elements are there. -/
  lt_size : ∀ a ∈ path, a.row < w.elements.size
  /-- The elements are outside. -/
  lineage_lt : ∀ a ∈ path, (w.lineage a).length < (w.lineage e).length

theorem WayDown.nil (w : World σ) (e : ElementId) : WayDown w [] e :=
  ⟨List.nodup_nil, by simp, by simp⟩

theorem WayDown.cons_nodup {w : World σ} {path : List ElementId} {e : ElementId}
    (h : WayDown w path e) : (e :: path).Nodup :=
  List.nodup_cons.mpr ⟨fun hmem => Nat.lt_irrefl _ (h.lineage_lt e hmem), h.nodup⟩

/-- A step down to a child. -/
theorem WayDown.child {w : World σ} {path : List ElementId} {e c : ElementId} (h : WayDown w path e)
    (he : e.row < w.elements.size) (hc : w.lineage c = c :: w.lineage e) :
    WayDown w (e :: path) c where
  nodup := h.cons_nodup
  lt_size a ha := by
    rcases List.mem_cons.mp ha with rfl | ha
    · exact he
    · exact h.lt_size a ha
  lineage_lt a ha := by
    rw [hc, List.length_cons]
    rcases List.mem_cons.mp ha with rfl | ha
    · exact Nat.lt_succ_self _
    · exact Nat.lt_succ_of_lt (h.lineage_lt a ha)

/-- No way is longer than there are elements. -/
theorem WayDown.length_lt {w : World σ} {path : List ElementId} {e : ElementId}
    (h : WayDown w path e) (he : e.row < w.elements.size) : path.length < w.elements.size := by
  have hnodup : ((e :: path).map ElementId.row).Nodup :=
    h.cons_nodup.map fun a b hab => by cases a; cases b; cases hab; rfl
  have hsubset : (e :: path).map ElementId.row ⊆ List.range w.elements.size := by
    intro row hrow
    obtain ⟨a, ha, rfl⟩ := List.mem_map.mp hrow
    rw [List.mem_range]
    rcases List.mem_cons.mp ha with rfl | ha
    · exact he
    · exact h.lt_size a ha
  have hle := hnodup.length_le_of_subset hsubset
  rw [List.length_map, List.length_cons, List.length_range] at hle
  omega

/-! ### The outline of a tree -/

/-- Acts that only look, one after the other. -/
theorem Act.runIn_bind_look {α β : Type} {enter : Enter σ} {w : World σ} {act : Act σ α}
    {f : α → Act σ β} {a : Option α} {g : α → Option β} (hact : act.runIn enter w = (a, w))
    (hf : ∀ a, (f a).runIn enter w = (g a, w)) :
    (act >>= f).runIn enter w = (a >>= g, w) := by
  cases a with
  | none => rw [Act.runIn_bind_none hact]; rfl
  | some a => rw [Act.runIn_bind_some hact, hf a]; rfl

theorem Act.runIn_outlineAttributes {enter : Enter σ} {w : World σ} {fields : Fields Value}
    {drawn : Fields (Option String)} (h : Fields.Related (Reads w.store) fields drawn) :
    (Act.outlineAttributes fields).runIn enter w = (Fields.lines drawn, w) := by
  induction h with
  | nil => rfl
  | @cons field line rest lines hfield _ ih =>
    obtain ⟨name, v⟩ := field
    obtain ⟨name', text⟩ := line
    obtain ⟨rfl, hreads⟩ := hfield
    unfold Act.outlineAttributes Fields.lines
    split
    · exact ih
    · refine Act.runIn_bind_look ((Act.runIn_text enter w v).trans (by rw [hreads.text_eq])) fun t => ?_
      exact Act.runIn_bind_look ih fun _ => rfl

mutual

/-- An outline with enough levels is that of the picture. -/
theorem Shows.runIn_outlineWithin {enter : Enter σ} {w : World σ} {e : ElementId}
    {path : List ElementId} (hpath : WayDown w path e) {levels : Nat}
    (hlevels : levels + path.length = w.elements.size + 1) (depth : Nat) :
    (picture : Picture) → Shows w e picture →
      (Act.outlineWithin levels depth e).runIn enter w = (picture.outline depth, w)
  | ⟨tag, attributes, children⟩, h => by
    rw [Shows] at h
    obtain ⟨x, c, hx, hc, hbusy, htag, -, hattributes, hinside, hchildren⟩ := h
    have he := Table.lt_size_of_get? hx
    have hlength := hpath.length_lt he
    obtain ⟨n, rfl⟩ : ∃ n, levels = n + 1 := ⟨levels - 1, by omega⟩
    unfold Act.outlineWithin Picture.outline
    rw [Act.runIn_bind_some (Act.runIn_component hx hbusy), hc]
    have hread : (Act.readAttributes (.headless c)).runIn enter w = (some c.attributes, w) := rfl
    rw [Act.runIn_bind_some hread]
    refine Act.runIn_bind_look (Act.runIn_outlineAttributes hattributes) fun lines => ?_
    rw [Act.runIn_bind_some (Act.runIn_element hx), htag]
    have hdown : ∀ c ∈ x.children, WayDown w (e :: path) c := fun c hc => by
      obtain ⟨-, -, hlineage⟩ := hinside c hc
      exact hpath.child he hlineage
    refine Act.runIn_bind_look (ShowsAll.runIn_concat hdown ?_ (depth + 1) children hchildren)
      fun below => rfl
    rw [List.length_cons]
    omega

theorem ShowsAll.runIn_concat {enter : Enter σ} {w : World σ} {es : List ElementId}
    {path : List ElementId} (hpath : ∀ e ∈ es, WayDown w path e) {levels : Nat}
    (hlevels : levels + path.length = w.elements.size + 1) (depth : Nat) :
    (pictures : List Picture) → ShowsAll w es pictures →
      (Act.concat (Act.outlineWithin levels depth) es).runIn enter w =
        (Picture.outlineAll depth pictures, w)
  | [], h => by
    cases es with
    | nil => rfl
    | cons e es => exact h.elim
  | picture :: pictures, h => by
    cases es with
    | nil => exact h.elim
    | cons e es =>
      rw [ShowsAll] at h
      unfold Act.concat Picture.outlineAll
      refine Act.runIn_bind_look (Shows.runIn_outlineWithin (hpath e List.mem_cons_self) hlevels depth
        picture h.1) fun first => ?_
      exact Act.runIn_bind_look (ShowsAll.runIn_concat (fun e he => hpath e (List.mem_cons_of_mem _ he))
        hlevels depth pictures h.2) fun _ => rfl

end

/-- The outline of a tree is the outline of its picture. -/
theorem Shows.outline_eq {w : World σ} {e : ElementId} {picture : Picture} (h : Shows w e picture)
    (enter : Enter σ) : ((Act.outline e).runIn enter w).1 = picture.outline 0 := by
  rw [Act.outline, Act.runIn_bind_some (Act.runIn_get enter w),
    Shows.runIn_outlineWithin (WayDown.nil w e) rfl 0 picture h]

end ReactiveViews
