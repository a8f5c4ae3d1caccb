import ReactiveViews.Proofs.Live.Aftermath
import ReactiveViews.Proofs.Live.Deepening

/-!
# What an update would show

Someone may ask what the tree of an element would look like if it were updated now. As long as the tree is
poised, other updates do not change the answer.

## What is proved

If a tree is updated again, it looks the same as before (`Host.Settled.shows`). An update of an element
somewhere else or inside of a tree does not change what an update of the tree would show
(`Poised.rewind`).
-/

namespace ReactiveViews

variable {σ : Type}

/-! ### Pictures are told by trees -/

theorem Reads.unique {s : Store} {v : Value} {text text' : Option String} (h : Reads s v text)
    (h' : Reads s v text') : text = text' := h.text_eq.symm.trans h'.text_eq

mutual

/-- A tree looks like one picture. -/
theorem Shows.unique {w : World σ} {e : ElementId} : (picture : Picture) → Shows w e picture →
    ∀ picture', Shows w e picture' → picture = picture'
  | ⟨tag, attributes, children⟩, h, ⟨tag', attributes', children'⟩, h' => by
    rw [Shows] at h h'
    obtain ⟨x, c, hx, hc, -, rfl, -, hattributes, -, hchildren⟩ := h
    obtain ⟨x', c', hx', hc', -, rfl, -, hattributes', -, hchildren'⟩ := h'
    obtain rfl := Option.some.inj (hx.symm.trans hx')
    obtain rfl := Component.headless.inj (hc.symm.trans hc')
    obtain rfl := ShowsAll.unique children hchildren children' hchildren'
    have hunique : Relator.RightUnique fun (a : String × Value) (b : String × Option String) =>
        a.1 = b.1 ∧ Reads w.store a.2 b.2 := fun a b b' hb hb' =>
      Prod.ext (hb.1.symm.trans hb'.1) (hb.2.unique hb'.2)
    rw [List.right_unique_forall₂' hunique hattributes hattributes']

/-- Several trees look like one list of pictures. -/
theorem ShowsAll.unique {w : World σ} {es : List ElementId} : (pictures : List Picture) →
    ShowsAll w es pictures → ∀ pictures', ShowsAll w es pictures' → pictures = pictures'
  | [], h, pictures', h' => by
    cases es with
    | cons => exact h.elim
    | nil =>
      cases pictures' with
      | nil => rfl
      | cons => exact h'.elim
  | picture :: pictures, h, pictures', h' => by
    cases es with
    | nil => exact h.elim
    | cons e es =>
      cases pictures' with
      | nil => exact h'.elim
      | cons picture' pictures' =>
        rw [Shows.unique picture h.1 picture' h'.1, ShowsAll.unique pictures h.2 pictures' h'.2]

end

/-! ### Previews -/

/-- What the tree of an element would look like, if it were updated. -/
def Host.Previews (host : Host σ) (w : World σ) (e : ElementId) (picture : Picture) : Prop :=
  ∃ depth w', (Act.update e).runIn (host.enter depth) w = (some (.ok ()), w') ∧ Shows w' e picture

section

variable {host : Host σ} {D : Scene σ} {w w' v v' s : World σ} {node child : Node Resolver}
  {e c : ElementId} {C : Context} {picture picture' : Picture} {depth depth' n : Nat} {ρ : Link}
  {asked : String → Prop}

theorem Host.update_deepens {answer : Except ViewError Unit} (hle : depth ≤ depth')
    (hrun : (Act.update e).runIn (host.enter depth) w = (some answer, w')) :
    (Act.update e).runIn (host.enter depth') w = (some answer, w') :=
  (Steadfast.update e).lasts (host.enter_deepens hle) hrun

/-- An update that answers ends in the same world, however deep calls may be nested. -/
theorem Host.update_unique {answer answer' : Except ViewError Unit}
    (hrun : (Act.update e).runIn (host.enter depth) w = (some answer, v))
    (hrun' : (Act.update e).runIn (host.enter depth') w = (some answer', v')) : answer = answer' ∧ v = v' := by
  have heq := (host.update_deepens (Nat.le_max_left depth depth') hrun).symm.trans
    (host.update_deepens (Nat.le_max_right depth depth') hrun')
  cases heq
  exact ⟨rfl, rfl⟩

theorem Host.Previews.shows (h : host.Previews w e picture)
    (hrun : (Act.update e).runIn (host.enter depth) w = (some (.ok ()), w')) : Shows w' e picture := by
  obtain ⟨depth', v, hrun', hshows⟩ := h
  obtain ⟨-, rfl⟩ := host.update_unique hrun hrun'
  exact hshows

theorem Host.Previews.unique (h : host.Previews w e picture) (h' : host.Previews w e picture') :
    picture = picture' := by
  obtain ⟨depth', v, hrun', hshows⟩ := h'
  exact (h.shows hrun').unique picture picture' hshows

/-! ### Worlds in which a tree is spared -/

/-- Two worlds one of which has come from the other, with veiled contexts. -/
theorem Poised.near {S : ElementId → Prop} (hp : Poised D v node e) (hs : Touches S v s)
    (hveils : v.Veils v.store.inert.link asked C) (hveils' : s.Veils ρ asked C) (loose : List String) :
    v.store.inert.link.Near D asked loose C C v s :=
  ⟨hp.pervades.worlds (hp.pervades.touched hs) hs.level.symm hp.pervades.closed.le_inert
    (Link.Stores.grow v.store.inert_closed (.refl _) hs.store), hveils.kindred hveils' loose⟩

/-- A tree that has been updated, and has not been touched since, looks the same after another update. -/
theorem Poised.again (hinnocent : ∀ depth, Innocent D (host.enter depth))
    (hharmless : ∀ depth, Harmless (host.enter depth)) (hp : Poised D v node e)
    (hrun : (Act.update e).runIn (host.enter depth) v = (some (.ok ()), v')) (hspares : v'.Spares s e)
    {x : Element} (hx : v.elements.get? e.row = some x) (hveils : s.Veils ρ (· ∈ node.names) x.context) :
    ∃ s' picture, (Act.update e).runIn (host.enter depth) s = (some (.ok ()), s') ∧ Shows s e picture ∧
      Shows s' e picture := by
  have hv := (host.update_stands hharmless depth hp.standing hrun).1.touches
  have hs : Touches (fun _ => True) v s := (hv.mono fun _ _ _ => trivial).trans
    (hspares.touches.mono fun _ _ _ => trivial)
  have hle := Link.le_diag (Link.le_refl v.store.inert.link)
  have hself : v.store.inert.link.diag.link.Near D
      (Trial.known (.blind True [] v v 0) node []) [] x.context x.context v v := by
    have hveils : v.Veils _ (Trial.known (.blind True [] v v 0) node []) x.context :=
      (hp.veils x hx).mono hle fun _ hname => hname.1
    exact ⟨hp.pervades.worlds hp.pervades rfl (Link.le_trans hp.pervades.closed.le_inert hle)
      (v.store.inert_closed.closed_diag (.refl _)), hveils.kindred hveils []⟩
  obtain ⟨s', hrun', ρ', picture, -, -, -, hshows, hshows'⟩ := host.update_recurs (K := .blind True [] v v 0)
    hinnocent hharmless (Link.settles_nil host D rfl) depth
    (hp.discreet.fitted True [] v v 0 (fun _ _ => List.not_mem_nil) fun _ _ => List.not_mem_nil)
    (hp.near hs (hp.veils x hx) hveils []) (.link v.store.inert v'.store) hspares.touches.store
    (.again trivial rfl hx rfl hp.standing hself (hp.inert.kept hp.standing) hspares.alike) hrun
    fun _ => .refl v'.store
  exact ⟨s', picture, hrun', hshows.touched hspares.touches (fun z hz => not_not_intro hz) picture, hshows'⟩

/-- A tree that is updated looks the same if it is updated in a world in which nothing in it has been
touched since. -/
theorem Poised.replay (hinnocent : ∀ depth, Innocent D (host.enter depth))
    (hharmless : ∀ depth, Harmless (host.enter depth)) (hp : Poised D v node e)
    (hrun : (Act.update e).runIn (host.enter depth) v = (some (.ok ()), v')) (hspares : v.Spares s e)
    {x : Element} (hx : v.elements.get? e.row = some x) (hveils : s.Veils ρ (· ∈ node.names) x.context) :
    ∃ s' picture, (Act.update e).runIn (host.enter depth) s = (some (.ok ()), s') ∧ Shows v' e picture ∧
      Shows s' e picture := by
  have htwin : v.store.inert.link.Twin (.blind False [] v s 0) depth v s node e x.context :=
    { standing := hp.standing
      standing' := hspares.alike.standing hp.standing
      get := ⟨x, hx, rfl⟩
      get' := ⟨x, hspares.alike e x (.refl v e) hx, rfl⟩
      alike := fun y z hy _ hz =>
        ⟨hspares.alike y z (hp.standing.below_of_encloses hy) hz, (hp.inert y z hy hz).owns⟩
      exist := fun _ hb => (List.not_mem_nil hb).elim
      spots := fun _ hb => (List.not_mem_nil hb).elim
      outer := fun _ hb => (List.not_mem_nil hb).elim }
  have hnear := hp.near hspares.touches (hp.veils x hx) hveils []
  obtain ⟨s', hrun', ρ', picture, -, -, -, hshows, hshows'⟩ := host.update_recurs (K := .blind False [] v s 0)
    hinnocent hharmless (Link.settles_nil host D rfl) depth
    (hp.discreet.fitted False [] v s 0 (fun _ _ => List.not_mem_nil) fun _ _ => List.not_mem_nil)
    hnear (.link v.store.inert .empty) s.store.empty_grows
    (.found ⟨trivial, rfl, htwin, hp.veils x hx, (hp.veils x hx).replace hveils⟩) hrun False.elim
  exact ⟨s', picture, hrun', hshows, hshows'⟩

/-- A settled tree looks like a preview of it. -/
theorem Host.Settled.shows (hinnocent : ∀ depth, Innocent D (host.enter depth))
    (hharmless : ∀ depth, Harmless (host.enter depth)) (h : host.Settled D w e) (hp : Poised D w node e)
    (hpreview : host.Previews w e picture) : Shows w e picture := by
  obtain ⟨node', depth, v, v', hpoised, hrun, hspares⟩ := h
  obtain ⟨x, hx⟩ := hpoised.standing.get
  obtain ⟨⟨hv, -⟩, hstanding⟩ := host.update_stands hharmless depth hpoised.standing hrun
  obtain rfl := hp.standing.node_eq (hspares.alike.standing hstanding)
  obtain ⟨x', hx', hcontext, -⟩ := hv.element e x hx
  have hveils := hp.veils x' (hspares.alike e x' (.refl v' e) hx')
  rw [hcontext] at hveils
  obtain ⟨s', picture', hagain, hshows, hshows'⟩ :=
    hpoised.again hinnocent hharmless hrun hspares hx hveils
  exact ((hpreview.shows hagain).unique picture picture' hshows') ▸ hshows

/-! ### Worlds before and after an update -/

theorem Poised.untouched (hp : Poised D w node e) (hw : Touches (fun _ => False) w w') : Poised D w' node e := by
  obtain ⟨x, hf, -⟩ := hp.feeding
  exact (hf.untouched hw).poised (hp.standing.untouched hw)

/-- An element that has been updated in one of two runs is a spot that is settled. -/
theorem Poised.settles (hinnocent : ∀ depth, Innocent D (host.enter depth))
    (hharmless : ∀ depth, Harmless (host.enter depth)) {spots : List ElementId}
    (hspots : ∀ b ∈ spots, b = c ∧ ∃ child, Poised D w child c)
    (hrun : (Act.update c).runIn (host.enter depth) w = (some (.ok ()), w')) :
    Link.Settles host (.blind False spots w' w depth) D := by
  intro depth₁ node₁ bound loose ρ o w₁ w₂ s C b hmem hfitted hnear hstraddles hlater hfound hrun₁
  obtain ⟨rfl, child, hp⟩ := hspots b hmem
  obtain ⟨⟨hleft, hright, -, hroom⟩, -⟩ := hfound.twin.spots b hmem (.refl b)
  obtain ⟨⟨hw, -⟩, hstanding⟩ := host.update_stands hharmless depth hp.standing hrun
  obtain rfl := hfound.twin.standing.node_eq (hleft.alike.standing hstanding)
  obtain ⟨x, hx⟩ := hp.standing.get
  obtain ⟨y, hy, rfl⟩ := hfound.twin.get
  obtain ⟨x', hx', hcontext, -⟩ := hw.element b x hx
  obtain rfl := Option.some.inj ((hleft.alike b x' (.refl w' b) hx').symm.trans hy)
  have hveils := hfound.veils
  have hveils' := hfound.veils'
  rw [hcontext] at hveils hveils'
  obtain ⟨s', picture, hrun', hshows, hshows'⟩ := hp.replay hinnocent hharmless hrun hright hx hveils'
  obtain ⟨w₂', picture', hagain, hbefore, hafter⟩ := hp.again hinnocent hharmless hrun hleft hx hveils
  obtain ⟨-, rfl⟩ := host.update_unique hrun₁ hagain
  obtain rfl := (hshows.touched hleft.touches (fun z hz => not_not_intro hz) picture).unique _ picture' hbefore
  have hdeep := host.update_deepens (hroom.trans (Nat.sub_le _ _)) hrun'
  refine ⟨s', hdeep, ρ, picture, ρ.le_refl, hnear.worlds.stores.grow ?_ ?_, hstraddles, hafter, hshows'⟩
  · exact (host.update_stands hharmless depth₁ hfound.twin.standing hrun₁).1.touches.store
  · exact (host.update_stands hharmless depth₁ hfound.twin.standing' hdeep).1.touches.store

/-- A tree in which some spots may have been updated, and the tree as it was. -/
theorem Poised.twin {S : ElementId → Prop} (hp : Poised D w node e) (hp' : Poised D w' node e)
    (hw : Touches S w w') (hout : ¬ S e) {spots : List ElementId}
    (hspots : ∀ b ∈ spots, (∃ z, w.elements.get? b.row = some z) ∧ ¬ w.Below b e)
    (halike : ∀ y, w'.Encloses e y → ¬ w'.BelowAny spots y → w.Encloses e y ∧ ¬ S y)
    (hroom : depth + node.height ≤ n) {x : Element} (hx : w.elements.get? e.row = some x) :
    w.store.inert.link.Twin (.blind False spots w' w depth) n w' w node e x.context where
  standing := hp'.standing
  standing' := hp.standing
  get := ⟨x, hw.get? hx hout, rfl⟩
  get' := ⟨x, hx, rfl⟩
  alike y z hy hnot hz := by
    obtain ⟨henc, hyout⟩ := halike y hy hnot
    obtain ⟨other, hother⟩ := hp.standing.encloses henc
    obtain ⟨z₀, hz₀⟩ := hother.get
    obtain rfl := Option.some.inj ((hw.get? hz₀ hyout).symm.trans hz)
    exact ⟨hz₀, (hp.inert y z₀ henc hz₀).owns⟩
  exist b hb := by
    obtain ⟨⟨z, hz⟩, -⟩ := hspots b hb
    obtain ⟨z', hz', -⟩ := hw.element b z hz
    exact ⟨z', hz'⟩
  spots b hb _ := by
    obtain ⟨⟨z, hz⟩, -⟩ := hspots b hb
    obtain ⟨z', hz', hcontext, -⟩ := hw.element b z hz
    refine ⟨⟨.refl ⟨z', hz'⟩, .refl ⟨z, hz⟩, fun y y' hy hy' => ?_, ?_⟩, by omega⟩
    · obtain rfl := Option.some.inj (hz'.symm.trans hy)
      obtain rfl := Option.some.inj (hz.symm.trans hy')
      exact hcontext.symm
    · exact Nat.le_sub_of_add_le hroom
  outer b hb hbelow := by
    obtain ⟨hget, hnot⟩ := hspots b hb
    exact (hnot ((hw.below hget ⟨x, hx⟩).mp hbelow)).elim

/-- If only spots have been updated, an update of the tree would have shown before what it shows now. -/
theorem Poised.recall {S : ElementId → Prop} (hinnocent : ∀ depth, Innocent D (host.enter depth))
    (hharmless : ∀ depth, Harmless (host.enter depth)) (depth : Nat) (spots : List ElementId)
    (hp : Poised D w node e) (hp' : Poised D w' node e) (hw : Touches S w w') (hout : ¬ S e)
    (hspots : ∀ b ∈ spots, (∃ z, w.elements.get? b.row = some z) ∧ ¬ w.Below b e)
    (halike : ∀ y, w'.Encloses e y → ¬ w'.BelowAny spots y → w.Encloses e y ∧ ¬ S y)
    (hsettles : Link.Settles host (.blind False spots w' w depth) D) (hpreview : host.Previews w' e picture) :
    host.Previews w e picture := by
  obtain ⟨depth', v, hupdate, hshows⟩ := hpreview
  obtain ⟨x, hx⟩ := hp.standing.get
  have hdeep : depth' ≤ depth' + (depth + node.height) := Nat.le_add_right _ _
  have hroom : depth + node.height ≤ depth' + (depth + node.height) := Nat.le_add_left _ _
  have htwin := hp.twin hp' hw hout hspots halike hroom hx
  have hveils' := (hp.veils x hx).replace (hp'.veils x (hw.get? hx hout))
  have hnear : w.store.inert.link.Near D (· ∈ node.names) [] x.context x.context w' w :=
    ⟨hp'.pervades.worlds hp.pervades hw.level hp.pervades.closed.le_inert
      (Link.Stores.grow w.store.inert_closed hw.store (.refl _)), hveils'.kindred (hp.veils x hx) []⟩
  obtain ⟨v', hagain, ρ, picture', -, -, -, hbefore, hafter⟩ :=
    host.update_recurs (K := .blind False spots w' w depth) hinnocent hharmless hsettles _
      (hp.discreet.fitted False spots w' w depth (fun _ _ => List.not_mem_nil) fun _ _ => List.not_mem_nil)
      hnear (.link w.store.inert .empty) w.store.empty_grows (.found ⟨trivial, rfl, htwin, hveils', hp.veils x hx⟩)
      (host.update_deepens hdeep hupdate) False.elim
  exact ⟨_, v', hagain, (hbefore.unique picture' picture hshows) ▸ hafter⟩

/-- If nothing in a tree has been touched, an update of it would have shown before what it shows now. -/
theorem Poised.recall_spared {S : ElementId → Prop} (hinnocent : ∀ depth, Innocent D (host.enter depth))
    (hharmless : ∀ depth, Harmless (host.enter depth)) (hp : Poised D w node e) (hp' : Poised D w' node e)
    (hw : Touches S w w') (hout : ¬ S e) (hspares : ∀ y, w'.Encloses e y → w.Encloses e y ∧ ¬ S y)
    (hpreview : host.Previews w' e picture) : host.Previews w e picture :=
  hp.recall hinnocent hharmless 0 [] hp' hw hout (fun _ hb => (List.not_mem_nil hb).elim)
    (fun y hy _ => hspares y hy) (Link.settles_nil host D rfl) hpreview

/-- What is not about elements does not change what an update of a tree would show. -/
theorem Poised.rewind_untouched (hinnocent : ∀ depth, Innocent D (host.enter depth))
    (hharmless : ∀ depth, Harmless (host.enter depth)) (hp : Poised D w node e)
    (hw : Touches (fun _ => False) w w') (hpreview : host.Previews w' e picture) :
    host.Previews w e picture := by
  refine hp.recall_spared hinnocent hharmless (hp.untouched hw) hw id (fun y hy => ⟨?_, id⟩) hpreview
  exact Link.encloses_touched hp.standing hw (fun _ _ => id) hy

/-- An update that succeeds, be it of an element in a tree or of one somewhere else, does not change what an
update of the tree would show. -/
theorem Poised.rewind (hinnocent : ∀ depth, Innocent D (host.enter depth))
    (hharmless : ∀ depth, Harmless (host.enter depth)) (hp : Poised D w node e) (hchild : Standing w child c)
    (hout : ¬ w.Below c e) (hrun : (Act.update c).runIn (host.enter depth) w = (some (.ok ()), w'))
    (hpreview : host.Previews w' e picture) : host.Previews w e picture := by
  obtain ⟨⟨hw, -⟩, hchild'⟩ := host.update_stands hharmless depth hchild hrun
  have hp' := hp.regrow hinnocent hharmless hchild (.inl hout) hrun
  have hall := fun y (hy : w'.Encloses e y) => hp.standing.encloses_or hw (.inl hout) hy
  by_cases henc : w.Encloses e c
  · -- The element that has been updated is a spot.
    refine hp.recall hinnocent hharmless depth [c] hp' hw hout ?_ (fun y hy hnot => ?_)
      (Poised.settles hinnocent hharmless ?_ hrun) hpreview
    · exact List.forall_mem_singleton.mpr ⟨hchild.get, hout⟩
    · refine (hall y hy).resolve_right fun ⟨_, hcy⟩ => hnot ⟨c, List.mem_singleton_self c, ?_⟩
      exact hchild'.below_of_encloses hcy
    · exact List.forall_mem_singleton.mpr ⟨rfl, hp.encloses henc⟩
  · refine hp.recall_spared hinnocent hharmless hp' hw hout (fun y hy => ?_) hpreview
    exact (hall y hy).resolve_right fun ⟨hc, _⟩ => henc hc

end

end ReactiveViews
