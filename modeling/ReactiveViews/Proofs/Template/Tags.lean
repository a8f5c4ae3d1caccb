import ReactiveViews.Template.Tag
import Mathlib.Data.List.Basic

/-!
# Which texts are tag descriptors

Every text is cut at its marks in exactly one way (`Tag.Cut`): there is a leading segment, and behind each
mark there is another one. Whether a text is a tag descriptor is a matter of these segments, whatever their
order and their number, and so is the descriptor that it is read as.

A descriptor that has been read is well formed: its parts are not empty and have no marks and no white
space. The text of a well-formed descriptor is read back as the same descriptor, although its parts may
have been written in another order first.

## What is proved

`Tag.scan` accepts what the segments say (`Tag.scan_eq_ok_iff`), and reading the text of a well-formed
descriptor gives the descriptor (`Tag.parse_text`). Both together are `Tag.parse_accepts_cuts`.
-/

namespace ReactiveViews.Tag

/-! ### Texts cut at marks -/

/-- A text that is cut at its marks. -/
@[ext]
structure Cut where
  /-- What stands before the first mark. -/
  lead : List Char
  /-- Each mark with what stands behind it, up to the next one. -/
  segments : List (Char × List Char)

namespace Cut

/-- The text that was cut. -/
def text (s : Cut) : List Char := s.lead ++ s.segments.flatMap fun p => p.1 :: p.2

/-- A text is cut at its marks and nowhere else. -/
structure Proper (s : Cut) : Prop where
  /-- There is no mark before the first one. -/
  lead : ∀ c ∈ s.lead, isMark c = false
  /-- Cuts are made at marks. -/
  marks : ∀ p ∈ s.segments, isMark p.1 = true
  /-- There is no mark in a segment. -/
  segments : ∀ p ∈ s.segments, ∀ c ∈ p.2, isMark c = false

/-- Cuts a text at its marks. -/
def ofText : List Char → Cut
  | [] => ⟨[], []⟩
  | c :: rest =>
    if isMark c then ⟨[], (c, (ofText rest).lead) :: (ofText rest).segments⟩
    else ⟨c :: (ofText rest).lead, (ofText rest).segments⟩

theorem ofText_mark {c : Char} (h : isMark c = true) (cs : List Char) :
    ofText (c :: cs) = ⟨[], (c, (ofText cs).lead) :: (ofText cs).segments⟩ := by
  rw [ofText, if_pos h]

theorem ofText_plain {c : Char} (h : isMark c = false) (cs : List Char) :
    ofText (c :: cs) = ⟨c :: (ofText cs).lead, (ofText cs).segments⟩ := by
  rw [ofText, if_neg (by simp [h])]

/-- Nothing is lost when a text is cut. -/
theorem text_ofText (cs : List Char) : (ofText cs).text = cs := by
  induction cs with
  | nil => rfl
  | cons c cs ih =>
    by_cases hc : isMark c = true
    · rw [ofText_mark hc]
      simpa [text] using ih
    · rw [ofText_plain (Bool.not_eq_true _ ▸ hc)]
      simpa [text] using ih

theorem proper_ofText (cs : List Char) : (ofText cs).Proper := by
  induction cs with
  | nil => exact ⟨by simp [ofText], by simp [ofText], by simp [ofText]⟩
  | cons c cs ih =>
    by_cases hc : isMark c = true
    · rw [ofText_mark hc]
      exact ⟨by simp, List.forall_mem_cons.mpr ⟨hc, ih.marks⟩, List.forall_mem_cons.mpr ⟨ih.lead, ih.segments⟩⟩
    · rw [Bool.not_eq_true] at hc
      rw [ofText_plain hc]
      exact ⟨List.forall_mem_cons.mpr ⟨hc, ih.lead⟩, ih.marks, ih.segments⟩

/-- What stands before the first mark goes to the leading segment. -/
theorem ofText_append {lead : List Char} (h : ∀ c ∈ lead, isMark c = false) (cs : List Char) :
    ofText (lead ++ cs) = ⟨lead ++ (ofText cs).lead, (ofText cs).segments⟩ := by
  induction lead with
  | nil => rfl
  | cons c lead ih =>
    obtain ⟨hc, hlead⟩ := List.forall_mem_cons.mp h
    rw [List.cons_append, ofText_plain hc, ih hlead]
    rfl

/-- There is one way to cut a text. -/
theorem Proper.ofText_text {s : Cut} (h : s.Proper) : ofText s.text = s := by
  obtain ⟨lead, segments⟩ := s
  obtain ⟨hlead, hmarks, hsegments⟩ := h
  have hrest : ofText (segments.flatMap fun p => p.1 :: p.2) = ⟨[], segments⟩ := by
    clear hlead
    induction segments with
    | nil => rfl
    | cons p segments ih =>
      obtain ⟨hmark, hmarks⟩ := List.forall_mem_cons.mp hmarks
      obtain ⟨hsegment, hsegments⟩ := List.forall_mem_cons.mp hsegments
      rw [List.flatMap_cons, List.cons_append, ofText_mark hmark, ofText_append hsegment, ih hmarks hsegments,
        List.append_nil]
  rw [text, ofText_append hlead, hrest, List.append_nil]

/-! ### Descriptors of cut texts -/

/-- The segments behind one kind of mark. -/
def behind (s : Cut) (mark : Char) : List (List Char) :=
  s.segments.filterMap fun p => if p.1 = mark then some p.2 else none

theorem behind_cons (lead : List Char) (p : Char × List Char) (segments : List (Char × List Char))
    (mark : Char) :
    behind ⟨lead, p :: segments⟩ mark =
      if p.1 = mark then p.2 :: behind ⟨lead, segments⟩ mark else behind ⟨lead, segments⟩ mark := by
  rw [behind, List.filterMap_cons]
  split <;> simp_all [behind]

/-- A text that is a tag descriptor. -/
structure Describes (s : Cut) : Prop where
  /-- There is no white space. -/
  blank : ∀ c ∈ s.text, Text.isBlank c = false
  /-- Something stands behind each mark. -/
  segments : ∀ p ∈ s.segments, p.2 ≠ []
  /-- There is at most one id. -/
  ids : (s.behind '#').length ≤ 1
  /-- There is at most one name. -/
  names : (s.behind '$').length ≤ 1
  /-- There is a tag or an id. -/
  named : s.lead ≠ [] ∨ s.behind '#' ≠ []

/-- The descriptor that a text is read as. -/
def descriptor (s : Cut) : Tag where
  tag := if s.lead.isEmpty then defaultTag else String.ofList s.lead
  id := (s.behind '#').head?.map String.ofList
  classes := (s.behind '.').map String.ofList
  name := (s.behind '$').head?.map String.ofList

end Cut

/-! ### Scanning -/

/-- Ends the segments behind marks, one after the other. -/
def Partial.finishAll (p : Partial) (segments : List (Char × List Char)) : Except TagFault Partial :=
  segments.foldlM (fun p s => p.finish (some s.1) (String.ofList s.2)) p

theorem Partial.finishAll_cons (p : Partial) (s : Char × List Char) (segments : List (Char × List Char)) :
    p.finishAll (s :: segments) =
      (p.finish (some s.1) (String.ofList s.2)).bind fun p => p.finishAll segments := rfl

theorem isBlank_of_isMark {c : Char} (h : isMark c = true) : Text.isBlank c = false := by
  simp only [isMark, Bool.or_eq_true, beq_iff_eq] at h
  rcases h with (rfl | rfl) | rfl <;> rfl

/-- A scan succeeds if there is no white space and each segment can be ended. -/
theorem scan_eq_ok_iff (p q : Partial) (mark : Option Char) (segment cs : List Char) :
    scan p mark segment cs = .ok q ↔ (∀ c ∈ cs, Text.isBlank c = false) ∧
      ((p.finish mark (String.ofList (segment.reverse ++ (Cut.ofText cs).lead))).bind fun p =>
        p.finishAll (Cut.ofText cs).segments) = .ok q := by
  induction cs generalizing p mark segment with
  | nil =>
    rw [scan, Cut.ofText, List.append_nil]
    cases p.finish mark (String.ofList segment.reverse) <;> simp [Except.bind, Partial.finishAll, pure, Except.pure]
  | cons c cs ih =>
    rw [scan, List.forall_mem_cons]
    by_cases hc : isMark c = true
    · rw [if_pos hc, Cut.ofText_mark hc, List.append_nil]
      cases p.finish mark (String.ofList segment.reverse) with
      | error fault => simp [Except.bind]
      | ok p' =>
        have hblank : Text.isBlank c = false := isBlank_of_isMark hc
        simp only [Except.bind, Partial.finishAll_cons, hblank, true_and]
        exact ih p' (some c) []
    · rw [if_neg hc, Cut.ofText_plain (Bool.not_eq_true _ ▸ hc)]
      by_cases hblank : Text.isBlank c = true
      · simp [hblank]
      · rw [if_neg hblank, ih p mark (c :: segment)]
        simp [hblank]

/-! ### Ending the segments -/

/-- All segments behind marks can be ended if none is empty and there are not too many ids and names. -/
theorem Partial.finishAll_eq_ok_iff {segments : List (Char × List Char)}
    (hmarks : ∀ s ∈ segments, isMark s.1 = true) (p q : Partial) (lead : List Char) :
    let s : Cut := ⟨lead, segments⟩
    p.finishAll segments = .ok q ↔ (∀ s ∈ segments, s.2 ≠ []) ∧
      p.id.toList.length + (s.behind '#').length ≤ 1 ∧ p.name.toList.length + (s.behind '$').length ≤ 1 ∧
      q = ⟨p.tag, p.id.or ((s.behind '#').head?.map String.ofList),
        ((s.behind '.').map String.ofList).reverse ++ p.classes,
        p.name.or ((s.behind '$').head?.map String.ofList)⟩ := by
  induction segments generalizing p with
  | nil =>
    obtain ⟨tag, id, classes, name⟩ := p
    cases id <;> cases name <;> simp [finishAll, Cut.behind, pure, Except.pure, eq_comm]
  | cons s segments ih =>
    obtain ⟨c, segment⟩ := s
    obtain ⟨hmark, hrest⟩ := List.forall_mem_cons.mp hmarks
    have ih := ih hrest
    simp only [finishAll_cons, Cut.behind_cons, List.forall_mem_cons] at ih ⊢
    by_cases hempty : segment = []
    · simp [hempty, finish, Except.bind]
    have hsome : (String.ofList segment).isEmpty = false := by
      simpa [← Bool.not_eq_true, String.isEmpty_iff] using hempty
    have hone (l : List (List Char)) : 1 + l.length ≤ 1 ↔ l = [] := by
      rw [← List.length_eq_zero_iff]
      omega
    have htwo (l : List (List Char)) : ¬ 1 + (l.length + 1) ≤ 1 := by omega
    simp only [isMark, Bool.or_eq_true, beq_iff_eq] at hmark
    rcases hmark with (rfl | rfl) | rfl
    · cases hid : p.id with
      | some id => simp [finish, hsome, hid, Except.bind, htwo]
      | none => simp [finish, hsome, hid, Except.bind, ih, hempty, hone]
    · simp [finish, hsome, Except.bind, ih, hempty]
    · cases hname : p.name with
      | some name => simp [finish, hsome, hname, Except.bind, htwo]
      | none => simp [finish, hsome, hname, Except.bind, ih, hempty, hone]

/-! ### Reading -/

/-- What has been read when all segments of a text have ended. -/
def Cut.read (s : Cut) : Partial where
  tag := String.ofList s.lead
  id := (s.behind '#').head?.map String.ofList
  classes := ((s.behind '.').map String.ofList).reverse
  name := (s.behind '$').head?.map String.ofList

theorem Cut.descriptor_read (s : Cut) :
    s.read.descriptor =
      if s.lead = [] ∧ s.behind '#' = [] then .error .nothingNamed else .ok s.descriptor := by
  have hlead : (String.ofList s.lead).isEmpty = s.lead.isEmpty := by
    rw [Bool.eq_iff_iff]
    simp
  simp only [Cut.read, Partial.descriptor, hlead, descriptor]
  cases s.behind '#' <;> simp

theorem scan_start_eq_ok_iff (q : Partial) (cs : List Char) :
    let s := Cut.ofText cs
    scan .start none [] cs = .ok q ↔ (∀ c ∈ s.text, Text.isBlank c = false) ∧ (∀ p ∈ s.segments, p.2 ≠ []) ∧
      (s.behind '#').length ≤ 1 ∧ (s.behind '$').length ≤ 1 ∧ q = s.read := by
  have hmarks := (Cut.proper_ofText cs).marks
  simp [scan_eq_ok_iff, Partial.finish, Except.bind, Partial.start, Cut.text_ofText, Cut.read,
    Partial.finishAll_eq_ok_iff hmarks _ _ (Cut.ofText cs).lead]

/-- A text is read as a descriptor if its segments describe one. -/
theorem parse_eq_ok_iff (src : String) (d : Tag) :
    parse src = .ok d ↔
      (Cut.ofText src.toList).Describes ∧ d = (Cut.ofText src.toList).descriptor := by
  constructor
  · intro h
    rw [parse] at h
    cases hscan : scan .start none [] src.toList with
    | error fault => rw [hscan] at h; cases h
    | ok q =>
      obtain ⟨hblank, hsegments, hids, hnames, rfl⟩ := (scan_start_eq_ok_iff q src.toList).mp hscan
      rw [hscan, Except.bind, Cut.descriptor_read] at h
      split at h
      · cases h
      · rename_i hnamed
        cases h
        exact ⟨⟨hblank, hsegments, hids, hnames, not_and_or.mp hnamed⟩, rfl⟩
  · rintro ⟨⟨hblank, hsegments, hids, hnames, hnamed⟩, rfl⟩
    have hscan := (scan_start_eq_ok_iff _ src.toList).mpr ⟨hblank, hsegments, hids, hnames, rfl⟩
    rw [parse, hscan, Except.bind, Cut.descriptor_read, if_neg (not_and_or.mpr hnamed)]

/-! ### Well-formed descriptors -/

/-- Characters that can stand in a part of a descriptor: neither marks nor white space. -/
def Plain (cs : List Char) : Prop := cs ≠ [] ∧ ∀ c ∈ cs, isMark c = false ∧ Text.isBlank c = false

/-- A descriptor whose parts can be told from its text. -/
structure WellFormed (d : Tag) : Prop where
  /-- The tag. -/
  tag : Plain d.tag.toList
  /-- The id. -/
  id : ∀ s ∈ d.id, Plain s.toList
  /-- The classes. -/
  classes : ∀ s ∈ d.classes, Plain s.toList
  /-- The name. -/
  name : ∀ s ∈ d.name, Plain s.toList

namespace Cut

/-- The cut of the text of a descriptor. -/
def ofTag (d : Tag) : Cut where
  lead := d.tag.toList
  segments := d.id.toList.map (fun s => ('#', s.toList)) ++ d.classes.map (fun s => ('.', s.toList)) ++
    d.name.toList.map (fun s => ('$', s.toList))

theorem text_ofTag (d : Tag) : (ofTag d).text = d.text.toList := by
  obtain ⟨tag, id, classes, name⟩ := d
  cases id <;> cases name <;>
    simp [ofTag, Cut.text, Tag.text, String.toList_join, List.flatMap_map]

theorem behind_ofTag (d : Tag) :
    (ofTag d).behind '#' = d.id.toList.map String.toList ∧
      (ofTag d).behind '.' = d.classes.map String.toList ∧
      (ofTag d).behind '$' = d.name.toList.map String.toList := by
  simp [ofTag, behind, List.filterMap_map]

theorem descriptor_ofTag {d : Tag} (h : d.WellFormed) : (ofTag d).descriptor = d := by
  have hlead : (ofTag d).lead.isEmpty = false := by simpa [ofTag] using h.tag.1
  obtain ⟨hids, hclasses, hnames⟩ := behind_ofTag d
  obtain ⟨tag, id, classes, name⟩ := d
  rw [descriptor, hlead, hids, hclasses, hnames]
  cases id <;> cases name <;> simp [ofTag]

/-- What stands behind the marks of a well-formed descriptor. -/
theorem mem_segments_ofTag {d : Tag} (h : d.WellFormed) {p : Char × List Char}
    (hp : p ∈ (ofTag d).segments) : isMark p.1 = true ∧ Plain p.2 := by
  simp only [ofTag, List.mem_append, List.mem_map, Option.mem_toList] at hp
  rcases hp with (⟨s, hs, rfl⟩ | ⟨s, hs, rfl⟩) | ⟨s, hs, rfl⟩
  · exact ⟨rfl, h.id s hs⟩
  · exact ⟨rfl, h.classes s hs⟩
  · exact ⟨rfl, h.name s hs⟩

theorem proper_ofTag {d : Tag} (h : d.WellFormed) : (ofTag d).Proper where
  lead c hc := (h.tag.2 c hc).1
  marks _ hp := (mem_segments_ofTag h hp).1
  segments _ hp c hc := ((mem_segments_ofTag h hp).2.2 c hc).1

theorem describes_ofTag {d : Tag} (h : d.WellFormed) : (ofTag d).Describes := by
  obtain ⟨hids, -, hnames⟩ := behind_ofTag d
  refine ⟨fun c hc => ?_, fun p hp => (mem_segments_ofTag h hp).2.1, ?_, ?_, .inl h.tag.1⟩
  · rw [Cut.text, List.mem_append, List.mem_flatMap] at hc
    rcases hc with hc | ⟨p, hp, hc⟩
    · exact (h.tag.2 c hc).2
    · obtain ⟨hmark, hplain⟩ := mem_segments_ofTag h hp
      rcases List.mem_cons.mp hc with rfl | hc
      · exact isBlank_of_isMark hmark
      · exact (hplain.2 c hc).2
  · rw [hids, List.length_map]
    cases d.id <;> simp
  · rw [hnames, List.length_map]
    cases d.name <;> simp

/-- What a text describes is well formed. -/
theorem Describes.wellFormed {s : Cut} (h : s.Describes) (hs : s.Proper) : s.descriptor.WellFormed := by
  have hplain {mark : Char} {segment : List Char} (hmem : segment ∈ s.behind mark) : Plain segment := by
    obtain ⟨p, hp, hsegment⟩ := List.mem_filterMap.mp hmem
    have hblank (c : Char) (hc : c ∈ p.2) : Text.isBlank c = false :=
      h.blank c (List.mem_append_right _ (List.mem_flatMap.mpr ⟨p, hp, List.mem_cons_of_mem _ hc⟩))
    split at hsegment
    · cases hsegment
      exact ⟨h.segments p hp, fun c hc => ⟨hs.segments p hp c hc, hblank c hc⟩⟩
    · cases hsegment
  have hhead {mark : Char} {part : String} (hpart : part ∈ (s.behind mark).head?.map String.ofList) :
      Plain part.toList := by
    obtain ⟨segment, hsegment, rfl⟩ := Option.map_eq_some_iff.mp hpart
    simpa using hplain (List.mem_of_mem_head? hsegment)
  refine ⟨?_, fun _ => hhead, fun part hpart => ?_, fun _ => hhead⟩
  · by_cases hlead : s.lead = []
    · have htag : s.descriptor.tag = defaultTag := by simp [descriptor, hlead]
      rw [htag, show defaultTag.toList = ['d', 'i', 'v'] from rfl]
      refine ⟨List.cons_ne_nil _ _, ?_⟩
      simp only [List.forall_mem_cons]
      exact ⟨by decide, by decide, by decide, by simp⟩
    · have htag : s.descriptor.tag = String.ofList s.lead := by simp [descriptor, hlead]
      rw [htag, String.toList_ofList]
      exact ⟨hlead, fun c hc => ⟨hs.lead c hc, h.blank c (List.mem_append_left _ hc)⟩⟩
  · obtain ⟨segment, hsegment, rfl⟩ := List.mem_map.mp hpart
    simpa using hplain hsegment

end Cut

/-- The text of a well-formed descriptor is read as the descriptor. -/
theorem parse_text {d : Tag} (h : d.WellFormed) : parse d.text = .ok d := by
  have hcut : Cut.ofText d.text.toList = Cut.ofTag d := by
    rw [← Cut.text_ofTag, (Cut.proper_ofTag h).ofText_text]
  rw [parse_eq_ok_iff, hcut]
  exact ⟨Cut.describes_ofTag h, (Cut.descriptor_ofTag h).symm⟩

/-- **Tag descriptors.** Every text is cut at its marks in one way. It is read as a descriptor if and only
if there is no white space in it, something stands behind each mark, there is at most one id and at most
one name, and there is a tag or an id; then the descriptor has these parts, the classes in their order, and
the default tag if no other is there. The text of the descriptor is read as the descriptor again. -/
theorem parse_accepts_cuts (src : String) :
    ∃ s : Cut, s.Proper ∧ s.text = src.toList ∧
      (∀ s' : Cut, s'.Proper → s'.text = src.toList → s' = s) ∧
      ((∃ d, parse src = .ok d) ↔ s.Describes) ∧
      ∀ d, parse src = .ok d → d = s.descriptor ∧ parse d.text = .ok d := by
  have hproper : (Cut.ofText src.toList).Proper := Cut.proper_ofText _
  refine ⟨Cut.ofText src.toList, hproper, Cut.text_ofText _, ?_, ?_, ?_⟩
  · intro s' hs' htext
    rw [← htext, hs'.ofText_text]
  · simp [parse_eq_ok_iff]
  · intro d hd
    obtain ⟨hdescribes, rfl⟩ := (parse_eq_ok_iff src d).mp hd
    exact ⟨rfl, parse_text (hdescribes.wellFormed hproper)⟩

/-- The id comes first in the text of a descriptor, then the classes, then the name. -/
example : (parse "li$head.item#first").map text = .ok "li#first.item$head" := by cbv

end ReactiveViews.Tag
