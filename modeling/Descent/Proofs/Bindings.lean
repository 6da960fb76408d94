import Descent.Proofs.Chronicle
import Descent.Proofs.Recursion

namespace Descent

namespace Rule

/-- Applying `q` is applying `r` inside it. -/
def StandsFor (s : Store) (q r : Rule) : Prop := ∀ room c b b', b.enter c.offset = (.ok (), b') →
  q.apply s (room+1) c b = (r.apply s room c b').map fun (step, b) => (step, b.close step)

/-- Applying the rule raises a fault where it starts, before it applies any other. -/
def Raises (s : Store) (q : Rule) (cause : Cause) : Prop :=
  ∀ room c b b', b.enter c.offset = (.ok (), b') →
  q.apply s (room+1) c b = some (.error ⟨cause, c.offset⟩, b'.leave)

variable {s : Store} {q r : Rule}

theorem standsFor_of_plan (h : ∀ c, q.plan s c = .forward r c) : q.StandsFor s r := by
  intro room c b b' he
  rw [apply, he]
  dsimp only
  rw [h, Plan.forward_run]

theorem raises_of_plan {cause : Cause} (h : ∀ c, q.plan s c = .fault c cause) :
    q.Raises s cause := by
  intro room c b b' he
  rw [apply, he, h]
  rfl

/-- With room for itself alone, a rule that stands for another does not get to raise anything. -/
theorem StandsFor.not_raises (h : q.StandsFor s r) (cause : Cause) : ¬ q.Raises s cause := by
  intro hraises
  have he := Budget.enter_unbounded (b := .fresh .unbounded) rfl (Cursor.start []).offset
  have hnone := (hraises 0 _ _ _ he).symm.trans (h 0 _ _ _ he)
  cases hnone

end Rule

theorem Supply.ofList_cases (rs : List Rule) (n : Nat) :
    ofList rs n ∈ rs ∨ ofList rs n = .endOfInput := by
  rw [ofList]
  cases h : rs[n]? with
  | none => exact .inr rfl
  | some r => exact .inl (List.mem_of_getElem? h)

theorem Workspace.exists_source {w : Workspace} {sources : List Source} {rs : List Rule}
    (h : sources.mapM w.source? = some rs) : ∀ r ∈ rs, ∃ source, w.source? source = some r := by
  induction sources generalizing rs with
  | nil =>
    obtain rfl : [] = rs := Option.some.inj h
    exact fun _ hr => absurd hr List.not_mem_nil
  | cons source sources ih =>
    rw [List.mapM_cons] at h
    obtain ⟨r, hr, h⟩ := Option.bind_eq_some_iff.1 h
    obtain ⟨rest, hrest, h⟩ := Option.bind_eq_some_iff.1 h
    obtain rfl := Option.some.inj h
    intro q hq
    rcases List.mem_cons.1 hq with rfl | hq
    · exact ⟨source, hr⟩
    · exact ih hrest q hq

/-- Binding a rule gives back the one that was bound before. -/
theorem Workspace.define_fst (w : Workspace) (g : RegistryId) (name : String) (r : Rule)
    (slot : Option String) : (w.define g name r slot).1 = w.store.bound? g name := by
  unfold define
  dsimp only
  split <;> rfl

namespace Chronicle

/-- The store of the workspace is what a sweep has left of all that was ever made, or more than it
had to; besides the rules in slots the program has those in hand. -/
structure Tracks (k : Chronicle) (w : Workspace) (hand : List Rule) : Prop where
  sound : k.Sound
  swept : k.ever.Swept (w.roots ++ Rule.holdsList hand) w.store
  grammars : ∀ e ∈ w.grammars, e.2 < k.ever.registries.length
  slots : ∀ e ∈ w.slots, e.2.Anchored k.ever
  hand : ∀ r ∈ hand, r.Anchored k.ever

namespace Tracks

variable {k : Chronicle} {w : Workspace} {hand : List Rule}

theorem empty : blank.Tracks .empty [] where
  sound := .blank
  swept := .refl _ _
  grammars _ h := absurd h List.not_mem_nil
  slots _ h := absurd h List.not_mem_nil
  hand _ h := absurd h List.not_mem_nil

theorem swept_roots (h : k.Tracks w []) : k.ever.Swept w.roots w.store := by
  have hswept := h.swept
  rwa [Rule.holdsList, List.append_nil] at hswept

theorem bound?_eq (h : k.Tracks w hand) {g : RegistryId}
    (hg : k.ever.Kept (w.roots ++ Rule.holdsList hand) (.registry g)) (name : String) :
    w.store.bound? g name = k.latest? g name := by
  rw [← h.sound.latest, Store.bound?, h.swept.registry_of_kept hg]
  rfl

theorem kept_of_grammar (w : Workspace) (k : Chronicle) {e : String × RegistryId}
    (he : e ∈ w.grammars) (hand : List Rule) :
    k.ever.Kept (w.roots ++ Rule.holdsList hand) (.registry e.2) :=
  .root (List.mem_append_left _ (Workspace.mem_roots.2 (.inl ⟨e, he, rfl⟩)))

/-- Handles that are shared or dropped, and rules that go from hand into a slot or are dropped. -/
theorem regroup (h : k.Tracks w hand) {grammars : Keyed RegistryId} {slots : Keyed Rule}
    (hgrammars : ∀ e ∈ grammars, ∃ f ∈ w.grammars, f.2 = e.2)
    (hslots : ∀ e ∈ slots, e ∈ w.slots ∨ e.2 ∈ hand) :
    k.Tracks ⟨w.store, grammars, slots⟩ [] where
  sound := h.sound
  swept := by
    refine h.swept.mono fun x hx => .root ?_
    rw [Rule.holdsList, List.append_nil] at hx
    rw [List.mem_append, Rule.mem_holdsList, Workspace.mem_roots]
    rcases Workspace.mem_roots.1 hx with ⟨e, he, rfl⟩ | ⟨e, he, hx⟩
    · obtain ⟨f, hf, heq⟩ := hgrammars e he
      exact .inl (.inl ⟨f, hf, by rw [heq]⟩)
    · rcases hslots e he with he | he
      · exact .inl (.inr ⟨e, he, hx⟩)
      · exact .inr ⟨e.2, he, hx⟩
  grammars e he := by
    obtain ⟨f, hf, heq⟩ := hgrammars e he
    exact heq ▸ h.grammars f hf
  slots e he := (hslots e he).elim (h.slots e) (h.hand e.2)
  hand _ hr := absurd hr List.not_mem_nil

theorem setSlot {r : Rule} (h : k.Tracks w [r]) (slot : String) :
    k.Tracks ⟨w.store, w.grammars, w.slots.insert slot r⟩ [] := by
  refine h.regroup (fun e he => ⟨e, he, rfl⟩) fun e he => ?_
  rcases Keyed.mem_insert he with rfl | he
  · exact .inr List.mem_cons_self
  · exact .inl he

/-- A rule that the program can take goes by what is there, and all that it holds is kept. -/
theorem source (h : k.Tracks w []) {source : Source} {r : Rule} (hr : w.source? source = some r) :
    r.Anchored k.ever ∧ ∀ x ∈ r.holds, k.ever.Kept w.roots x := by
  cases source with
  | slot slot =>
    have hmem := Keyed.get?_eq_some_iff.1 hr
    exact ⟨h.slots _ hmem, h.sound.kept_of_live (.slot hmem)⟩
  | reference grammar name =>
    obtain ⟨g, hg, rfl⟩ := Option.map_eq_some_iff.1 hr
    have hlt := h.grammars _ (Keyed.get?_eq_some_iff.1 hg)
    refine ⟨fun q hq => ?_, fun _ hx => absurd hx List.not_mem_nil⟩
    obtain rfl := List.mem_singleton.1 hq
    exact decide_eq_true hlt
  | get grammar name =>
    obtain ⟨g, hg, hr⟩ := Option.bind_eq_some_iff.1 hr
    obtain ⟨q, hq, rfl⟩ := Option.map_eq_some_iff.1 hr
    have hmem := Keyed.get?_eq_some_iff.1 hg
    rw [h.bound?_eq (kept_of_grammar w k hmem []), ← h.sound.latest] at hq
    refine ⟨fun p hp => ?_, fun x hx => ?_⟩
    · rcases List.mem_cons.1 hp with rfl | hp
      · exact decide_eq_true (h.grammars _ hmem)
      · exact h.sound.anchored.bound hq p hp
    · rw [h.sound.latest] at hq
      rcases List.mem_cons.1 hx with rfl | hx
      · exact .root (Workspace.mem_roots.2 (.inl ⟨_, hmem, rfl⟩))
      · exact h.sound.kept_of_live (.grammar hmem hq) x hx

/-- Building goes on side by side, and the rule is in hand then. -/
theorem build (h : k.Tracks w []) {sources : List Source} {rs : List Rule}
    (hrs : sources.mapM w.source? = some rs) (recipe : Recipe) :
    ∃ r store ever, recipe.build w.store (.ofList rs) = (r, store) ∧
      recipe.build k.ever (.ofList rs) = (r, ever) ∧
        Tracks { k with ever } { w with store } [r] := by
  have hgiven (n : Nat) : (Supply.ofList rs n).Anchored k.ever ∧
      ∀ x ∈ (Supply.ofList rs n).holds, k.ever.Kept w.roots x := by
    rcases Supply.ofList_cases rs n with hmem | hend
    · obtain ⟨source, hsource⟩ := Workspace.exists_source hrs _ hmem
      exact h.source hsource
    · rw [hend]
      exact ⟨fun q hq => List.mem_singleton.1 hq ▸ rfl, fun _ hx => absurd hx List.not_mem_nil⟩
  obtain ⟨r, cells, hbuild, hbuild', hbuilt⟩ := recipe.build_congr (.ofList rs) h.swept.cells
  -- Whatever is built holds what was kept before, or a cell of its own.
  have hholds :=
    hbuilt.holds (P := fun x => k.ever.Kept w.roots x ∨ ∃ c, k.ever.cells.length ≤ c ∧ x = .cell c)
    (fun n x hx => .inl ((hgiven n).2 x hx)) fun c hc => .inr ⟨c, hc, rfl⟩
  refine ⟨r, _, _, hbuild', hbuild, ?_⟩
  refine ⟨h.sound.extend hbuilt fun n => (hgiven n).1, ?_, h.grammars,
    fun e he => (h.slots e he).extend cells, ?_⟩
  · refine h.swept_roots.extend (fun q hq => hholds q (List.mem_append_right _ hq)) fun x hx => ?_
    rw [List.mem_append, Rule.mem_holdsList] at hx
    rcases hx with hx | ⟨q, hq, hx⟩
    · exact .inl (.root hx)
    · exact hholds q (List.mem_append_left _ hq) x hx
  · intro q hq
    exact hbuilt.anchored (fun n => (hgiven n).1) q (List.mem_append_left _ hq)

/-- A rule that is bound goes out of hand, and the one that was bound before comes into it. -/
theorem bind {r : Rule} (h : k.Tracks w [r]) {e : String × RegistryId} (he : e ∈ w.grammars)
    (name : String) :
    (k.bind e.2 name r).Tracks { w with store := w.store.define e.2 name r }
      (w.store.bound? e.2 name).toList := by
  have hkept := kept_of_grammar w k he [r]
  have hold {q : Rule} (hq : q ∈ (w.store.bound? e.2 name).toList) :
      k.latest? e.2 name = some q := by
    rwa [Option.mem_toList, h.bound?_eq hkept] at hq
  have hr : r.Anchored k.ever := h.hand r List.mem_cons_self
  refine ⟨h.sound.bind (h.grammars e he) hr name, ?_, fun f hf => ?_,
    fun f hf => (h.slots f hf).define _ _ _, fun q hq => ?_⟩
  · -- Both rules are in hand for the moment.
    have hboth : k.ever.Swept
        (w.roots ++ Rule.holdsList (r :: (w.store.bound? e.2 name).toList)) w.store := by
      refine h.swept.mono fun x hx => ?_
      rw [List.mem_append, Rule.mem_holdsList] at hx
      rcases hx with hx | ⟨q, hq, hx⟩
      · exact .root (List.mem_append_left _ hx)
      · rcases List.mem_cons.1 hq with rfl | hq
        · exact .root (List.mem_append_right _ (Rule.mem_holdsList.2 ⟨q, List.mem_cons_self, hx⟩))
        · exact .held hkept (h.sound.mem_holdsOf.2 ⟨name, q, hold hq, hx⟩)
    have hdefine := hboth.define (kept_of_grammar w k he _)
      (fun x hx => .root (List.mem_append_right _
        (Rule.mem_holdsList.2 ⟨r, List.mem_cons_self, hx⟩))) name
    refine hdefine.mono fun x hx => .root ?_
    rw [Rule.holdsList]
    exact (List.mem_append.1 hx).elim (List.mem_append_left _) fun hx =>
      List.mem_append_right _ (List.mem_append_right _ hx)
  · rw [Chronicle.bind, Store.define, List.length_modify]
    exact h.grammars f hf
  · have hlatest := hold hq
    rw [← h.sound.latest] at hlatest
    exact (h.sound.anchored.bound hlatest).define _ _ _

theorem newGrammar (h : k.Tracks w []) (grammar : String) :
    Tracks { k with ever := k.ever.newRegistry.2 }
      { w with
        store := w.store.newRegistry.2
        grammars := w.grammars.insert grammar w.store.newRegistry.1 } [] := by
  have hnew : w.store.newRegistry.1 = k.ever.registries.length := h.swept.registries
  refine ⟨h.sound.newRegistry, ?_, fun e he => ?_, fun e he => (h.slots e he).newRegistry,
    fun _ hr => absurd hr List.not_mem_nil⟩
  · refine h.swept_roots.newRegistry fun x hx => ?_
    rw [Rule.holdsList, List.append_nil] at hx
    rcases Workspace.mem_roots.1 hx with ⟨e, he, rfl⟩ | ⟨e, he, hx⟩
    · rcases Keyed.mem_insert he with rfl | he
      · exact .inr (by rw [hnew])
      · exact .inl (.root (Workspace.mem_roots.2 (.inl ⟨e, he, rfl⟩)))
    · exact .inl (.root (Workspace.mem_roots.2 (.inr ⟨e, he, hx⟩)))
  · have hlength : k.ever.newRegistry.2.registries.length = k.ever.registries.length+1 := by
      simp [Store.newRegistry]
    rw [hlength]
    rcases Keyed.mem_insert he with rfl | he
    · rw [hnew]
      exact Nat.lt_succ_self _
    · exact Nat.lt_succ_of_lt (h.grammars e he)

theorem settle (h : k.Tracks w []) : k.Tracks w.settle [] where
  sound := h.sound
  swept := by
    rw [Rule.holdsList, List.append_nil]
    exact h.swept_roots.settle
  grammars := h.grammars
  slots := h.slots
  hand := h.hand

/-- An action that makes anything leaves what a sweep of the workspace leaves. -/
theorem perform (h : k.Tracks w []) (a : Action) : w.perform a = w ∧ k.note w a = k ∨
    ∃ w', w.perform a = w'.settle ∧ (k.note w a).Tracks w' [] := by
  have hself : ∀ e ∈ w.grammars, ∃ f ∈ w.grammars, f.2 = e.2 := fun e he => ⟨e, he, rfl⟩
  -- The invariant is carried up to the sweep that ends the action.
  cases a with
  | newGrammar grammar => exact .inr ⟨_, rfl, h.newGrammar grammar⟩
  | share grammar other =>
    rw [Workspace.perform]
    cases hg : w.grammar? grammar with
    | none => exact .inl ⟨rfl, rfl⟩
    | some g =>
      refine .inr ⟨_, rfl, h.regroup (fun e he => ?_) fun e he => .inl he⟩
      rcases Keyed.mem_insert he with rfl | he
      · exact ⟨_, Keyed.get?_eq_some_iff.1 hg, rfl⟩
      · exact ⟨e, he, rfl⟩
  | dropGrammar grammar =>
    exact .inr ⟨_, rfl, h.regroup (fun e he => ⟨e, Keyed.mem_of_mem_erase he, rfl⟩)
      fun e he => .inl he⟩
  | define grammar name sources recipe slot =>
    rw [Workspace.perform, note, Workspace.build?]
    cases hg : w.grammar? grammar with
    | none => exact .inl ⟨rfl, rfl⟩
    | some g =>
      cases hrs : sources.mapM w.source? with
      | none => exact .inl ⟨rfl, rfl⟩
      | some rs =>
        right
        obtain ⟨r, store, ever, hbuild, hbuild', hbuilt⟩ := h.build hrs recipe
        have hbind := hbuilt.bind (Keyed.get?_eq_some_iff.1 hg) name
        simp only [Option.map_some, hbuild, hbuild', Workspace.define]
        cases hold : store.bound? g name with
        | none =>
          rw [hold] at hbind
          exact ⟨_, by cases slot <;> rfl, hbind⟩
        | some old =>
          rw [hold] at hbind
          cases slot with
          | none => exact ⟨_, rfl, hbind.regroup hself fun e he => .inl he⟩
          | some slot => exact ⟨_, rfl, hbind.setSlot slot⟩
  | keep slot sources recipe =>
    rw [Workspace.perform, note, Workspace.build?]
    cases hrs : sources.mapM w.source? with
    | none => exact .inl ⟨rfl, rfl⟩
    | some rs =>
      right
      obtain ⟨r, store, ever, hbuild, hbuild', hbuilt⟩ := h.build hrs recipe
      simp only [Option.map_some, hbuild, hbuild']
      exact ⟨_, rfl, hbuilt.setSlot slot⟩
  | dropSlot slot =>
    exact .inr ⟨_, rfl, h.regroup hself fun e he => .inl (Keyed.mem_of_mem_erase he)⟩

end Tracks

theorem run_append (actions : List Action) (a : Action) :
    Workspace.run (actions ++ [a]) = (Workspace.run actions).perform a := by
  rw [Workspace.run, List.foldl_append]
  rfl

theorem run_tracks (actions : List Action) : (of actions).Tracks (.run actions) [] := by
  induction actions using List.reverseRecOn with
  | nil => exact .empty
  | append_singleton actions a ih =>
    rw [run_append, of_append]
    rcases ih.perform a with ⟨hw, hk⟩ | ⟨w', hw, htracks⟩
    · rwa [hw, hk]
    · rw [hw]
      exact htracks.settle

/-- As long as no registry owns itself, nothing is left that nobody holds. -/
theorem run_kept {actions : List Action}
    (hfree : ∀ before, before <+: actions →
      ∀ g, ¬ Relation.TransGen (Workspace.run before).store.Owns (.registry g) (.registry g))
    {h : Hold} (hh : (Workspace.run actions).store.isFilled h) :
    (of actions).ever.Kept (Workspace.run actions).roots h := by
  induction actions using List.reverseRecOn with
  | nil => cases h <;> cases hh
  | append_singleton actions a ih =>
    have hlast := hfree _ (List.prefix_refl _)
    rw [run_append] at hlast hh ⊢
    rw [of_append]
    rcases (run_tracks actions).perform a with ⟨hw, hk⟩ | ⟨w', hw, htracks⟩
    · rw [hw] at hh ⊢
      rw [hk]
      exact ih (fun before hb => hfree before (hb.trans (List.prefix_append _ _))) hh
    · rw [hw] at hlast hh ⊢
      have hground := htracks.settle.swept.grounded htracks.sound.grounded
      have hkept := Store.kept_of_isFilled (fun k hk => (hground.loop hk).elim hlast) hh
      exact htracks.swept_roots.kept.1 hkept

theorem bound?_of_not_held {actions : List Action}
    (hfree : ∀ before, before <+: actions →
      ∀ g, ¬ Relation.TransGen (Workspace.run before).store.Owns (.registry g) (.registry g))
    {g : RegistryId} (hg : ¬ (of actions).Held (.run actions) g) (name : String) :
    (Workspace.run actions).store.bound? g name = none := by
  have hempty : (Workspace.run actions).store.registry g = .empty := by
    by_contra hne
    have hfilled : (Workspace.run actions).store.isFilled (.registry g) := by
      rw [Store.isFilled, Keyed.isEmpty_eq_false_iff.2 hne]
      rfl
    exact hg ((run_tracks actions).sound.heldBy_iff.2 (run_kept hfree hfilled))
  rw [Store.bound?, hempty]
  rfl

/-- Cells stay as they were noted down. -/
theorem note_cell? (k : Chronicle) (w : Workspace) (a : Action) {c : CellId}
    (hc : c < k.ever.cells.length) :
    c < (k.note w a).ever.cells.length ∧ (k.note w a).ever.cell? c = k.ever.cell? c := by
  have hbuild (recipe : Recipe) (given : Supply) : c < (recipe.build k.ever given).2.cells.length ∧
      (recipe.build k.ever given).2.cell? c = k.ever.cell? c := by
    obtain ⟨cells, hstore, -⟩ := Recipe.build_built recipe k.ever given
    rw [hstore, Store.length_cells_extend]
    exact ⟨Nat.lt_add_right _ hc, Store.cell?_extend_of_lt hc⟩
  cases a with
  | newGrammar | share | dropGrammar | dropSlot => exact ⟨hc, rfl⟩
  | define grammar name sources recipe slot =>
    rw [note]
    split
    · exact hbuild recipe _
    · exact ⟨hc, rfl⟩
  | keep slot sources recipe =>
    rw [note]
    split
    · exact hbuild recipe _
    · exact ⟨hc, rfl⟩

theorem of_cell? {before actions : List Action} (h : before <+: actions) {c : CellId}
    (hc : c < (of before).ever.cells.length) :
    (of actions).ever.cell? c = (of before).ever.cell? c := by
  obtain ⟨after, rfl⟩ := h
  suffices c < (of (before ++ after)).ever.cells.length ∧
      (of (before ++ after)).ever.cell? c = (of before).ever.cell? c from this.2
  induction after using List.reverseRecOn with
  | nil =>
    rw [List.append_nil]
    exact ⟨hc, rfl⟩
  | append_singleton after a ih =>
    rw [← List.append_assoc, of_append]
    obtain ⟨hlt, hcell⟩ := note_cell? _ (.run (before ++ after)) a ih.1
    exact ⟨hlt, hcell.trans ih.2⟩

namespace Tracks

variable {k : Chronicle} {w : Workspace}

theorem bound?_of_held (h : k.Tracks w []) {g : RegistryId} (hg : k.Held w g) (name : String) :
    w.store.bound? g name = k.latest? g name := by
  have hkept := (h.sound.heldBy_iff (h := .registry g)).1 hg
  exact h.bound?_eq (hkept.of_roots fun _ hx => .root (List.mem_append_left _ hx)) name

theorem cell?_of_live (h : k.Tracks w []) {c : CellId} (hc : k.Live w (.recursive c)) :
    w.store.cell? c = k.ever.cell? c :=
  h.swept_roots.cell?_of_kept (h.sound.kept_of_live hc _ List.mem_cons_self)

theorem source_get (h : k.Tracks w []) {grammar : String} {g : RegistryId}
    (hg : w.grammar? grammar = some g) (name : String) :
    w.source? (.get grammar name) = (k.latest? g name).map (.registered g) := by
  rw [Workspace.source?, hg, Option.bind_some, Store.get?,
    h.bound?_of_held (.inl ⟨_, Keyed.get?_eq_some_iff.1 hg⟩)]

theorem define_build (h : k.Tracks w []) {grammar : String} {g : RegistryId}
    (hg : w.grammar? grammar = some g) {sources : List Source} {recipe : Recipe} {r : Rule}
    {w' : Workspace} (hr : w.build? sources recipe = some (r, w'))
    (name : String) (slot : Option String) : (w'.define g name r slot).1 = k.latest? g name := by
  obtain ⟨rs, _, heq⟩ := Option.map_eq_some_iff.1 hr
  obtain ⟨cells, hstore, -⟩ := Recipe.build_built recipe w.store (.ofList rs)
  have hbound : w'.store.bound? g name = k.latest? g name := by
    rw [← h.bound?_of_held (.inl ⟨_, Keyed.get?_eq_some_iff.1 hg⟩), ← (Prod.mk.inj heq).2]
    dsimp only
    rw [hstore, Store.bound?_extend]
  rw [Workspace.define_fst, hbound]

theorem anchored_of_live (h : k.Tracks w []) {r : Rule} (hr : k.Live w r) : r.Anchored k.ever := by
  have hbound {g : RegistryId} {name : String} {r : Rule} (hr : k.latest? g name = some r) :
      r.Anchored k.ever :=
    h.sound.anchored.bound ((h.sound.latest g name).trans hr)
  induction hr with
  | slot hr => exact h.slots _ hr
  | inside _ hq ih => exact fun p hp => ih p (Rule.mem_parts_of_child hq hp)
  | cell _ hr => exact h.sound.anchored.cell hr
  | grammar _ hr => exact hbound hr
  | registered _ hr => exact hbound hr

end Tracks

end Chronicle

namespace Store

variable {s : Store} {g : RegistryId} {name : String}

theorem mem_names : name ∈ s.names g ↔ (s.get? g name).isSome := by
  rw [names, ← Keyed.isSome_get?, get?, Option.isSome_map]
  rfl

theorem contains_iff : s.contains g name ↔ (s.get? g name).isSome := by
  rw [← mem_names, names, Keyed.keys, Entries.keys, List.mem_map, contains, List.any_eq_true]
  simp only [decide_eq_true_eq]

end Store

/-- Ownership that goes down by some rank leads back to nothing. -/
theorem Store.not_owns_self {s : Store} (rank : Hold → Nat)
    (h : ∀ k ∈ s.all, ∀ x ∈ s.holdsOf k, rank x < rank k) (k : Hold) :
    ¬ Relation.TransGen s.Owns k k := by
  have hlt {x y : Hold} (hxy : Relation.TransGen s.Owns x y) : rank y < rank x := by
    have hone {x y : Hold} (hxy : s.Owns x y) : rank y < rank x :=
      h x (mem_all_of_isFilled (isFilled_of_holds hxy)) y hxy
    induction hxy with
    | single hxy => exact hone hxy
    | tail _ hxy ih => exact Nat.lt_trans (hone hxy) ih
  exact fun hk => Nat.lt_irrefl _ (hlt hk)

/-- However a program makes, shares and drops grammars, binds names and binds them anew, and builds,
keeps and drops rules: as long as no registry comes to own itself, a reference raises a fault
exactly if nothing was ever bound to its name or nobody holds its registry, and stands for the rule
that was bound last otherwise. A rule taken from a registry stands for the rule that was bound when
it was taken, and for as long as someone has it all references to the registry go on; and what is in
a cell that someone has stays there. Names are in order, and the registry finds what they are bound
to. -/
theorem Workspace.late_binding (actions : List Action) {w : Workspace} {k : Chronicle}
    (hw : run actions = w) (hk : Chronicle.of actions = k) (hfree : ∀ before, before <+: actions →
      ∀ g, ¬ Relation.TransGen (run before).store.Owns (.registry g) (.registry g)) :
    (∀ g name, ((Rule.reference g name).Raises w.store (.unbound name) ↔
      k.latest? g name = none ∨ ¬ k.Held w g) ∧
      ∀ r, k.latest? g name = some r → k.Held w g → (Rule.reference g name).StandsFor w.store r) ∧
    (∀ before, before <+: actions →
      (∀ grammar name q, (run before).source? (.get grammar name) = some q → ∃ g r,
        (run before).grammar? grammar = some g ∧ (Chronicle.of before).latest? g name = some r ∧
        q = .registered g r ∧ q.StandsFor w.store r ∧
        (k.Live w q → ∀ n, w.store.bound? g n = k.latest? g n)) ∧
      ∀ c, (Chronicle.of before).Live (run before) (.recursive c) → k.Live w (.recursive c) →
        w.store.cell? c = (run before).store.cell? c) ∧
    (∀ g, (w.store.names g).Pairwise (· < ·) ∧ w.store.len g = (w.store.names g).length ∧
      ∀ name, (w.store.contains g name ↔ (w.store.get? g name).isSome) ∧
        (name ∈ w.store.names g ↔ (w.store.get? g name).isSome)) ∧
    ∀ grammar g, w.grammar? grammar = some g →
      (∀ name, w.source? (.get grammar name) = (k.latest? g name).map (.registered g)) ∧
      ∀ sources recipe r w', w.build? sources recipe = some (r, w') →
        ∀ name slot, (w'.define g name r slot).1 = k.latest? g name := by
  subst hw hk
  have htracks := Chronicle.run_tracks actions
  have hstands (g : RegistryId) (name : String) (r : Rule)
      (hr : (Chronicle.of actions).latest? g name = some r)
      (hg : (Chronicle.of actions).Held (run actions) g) :
      (Rule.reference g name).StandsFor (run actions).store r := by
    refine Rule.standsFor_of_plan fun c => ?_
    rw [Rule.plan, htracks.bound?_of_held hg, hr]
    rfl
  refine ⟨fun g name => ⟨⟨fun h => ?_, fun h => ?_⟩, hstands g name⟩,
    fun before hbefore => ⟨?_, fun c hc hc' => ?_⟩, fun g =>
      ⟨List.pairwise_map.2 ((run actions).store.registry g).ascending, List.length_map _ |>.symm,
        fun name => ⟨Store.contains_iff, Store.mem_names⟩⟩,
    fun grammar g hg => ⟨htracks.source_get hg, fun _ _ _ _ hr => htracks.define_build hg hr⟩⟩
  · by_contra hnot
    obtain ⟨hsome, hheld⟩ := not_or.1 hnot
    obtain ⟨r, hr⟩ := Option.ne_none_iff_exists'.1 hsome
    exact (hstands g name r hr (not_not.1 hheld)).not_raises _ h
  · have hnone : (run actions).store.bound? g name = none := by
      by_cases hg : (Chronicle.of actions).Held (run actions) g
      · rw [htracks.bound?_of_held hg, h.resolve_right (not_not_intro hg)]
      · exact Chronicle.bound?_of_not_held hfree hg name
    refine Rule.raises_of_plan fun c => ?_
    rw [Rule.plan, hnone]
    rfl
  · intro grammar name q hq
    obtain ⟨g, hg, -⟩ := Option.bind_eq_some_iff.1 hq
    rw [(Chronicle.run_tracks before).source_get hg] at hq
    obtain ⟨r, hr, rfl⟩ := Option.map_eq_some_iff.1 hq
    exact ⟨g, r, hg, hr, rfl, Rule.standsFor_of_plan fun _ => rfl,
      fun hlive => htracks.bound?_of_held (.inr ⟨r, hlive⟩)⟩
  · have htracks' := Chronicle.run_tracks before
    have hlt := Store.lt_of_holds (htracks'.anchored_of_live hc) List.mem_cons_self
    rw [htracks.cell?_of_live hc', htracks'.cell?_of_live hc, Chronicle.of_cell? hbefore hlt]

/-- A program whose second grammar ends up as all that holds the first. -/
def Workspace.cascade : List Action :=
  [.newGrammar "a", .define "a" "x" [] (.token (.literal "1")) none, .newGrammar "b",
    .define "b" "y" [.get "a" "x", .reference "a" "x"] (.sequence [.given 0, .given 1]) none,
    .define "a" "x" [] (.token (.literal "2")) none, .keep "r" [.reference "a" "x"] (.given 0),
      .dropGrammar "a"]

/-- The rule that was taken before the name was bound anew keeps the reference alive until it goes
itself. -/
theorem Workspace.late_binding_cascade : (run cascade).grammar? "a" = none ∧
    (Rule.reference 0 "x").StandsFor (run cascade).store (.token (.literal "2")) ∧
    (∃ q, (run (cascade.take 3)).source? (.get "a" "x") = some q ∧
      q.StandsFor (run cascade).store (.token (.literal "1"))) ∧
    (Rule.reference 0 "x").Raises (run (cascade ++ [.dropGrammar "b"])).store (.unbound "x") := by
  have hfree : ∀ before, before <+: cascade ++ [.dropGrammar "b"] →
      ∀ g, ¬ Relation.TransGen (run before).store.Owns (.registry g) (.registry g) := by
    intro before hbefore g
    -- The second registry owns the first, and no other owns anything.
    refine Store.not_owns_self (fun h => if h = .registry 1 then 1 else 0) ?_ _
    revert before
    simp only [← List.mem_inits]
    decide
  obtain ⟨hreference, htaken, -⟩ := late_binding cascade rfl rfl fun before hbefore =>
    hfree before (hbefore.trans (List.prefix_append _ _))
  obtain ⟨hreference', -⟩ := late_binding (cascade ++ [.dropGrammar "b"]) rfl rfl hfree
  have hbound : (Chronicle.of cascade).latest? 1 "y" =
      some (.sequence [.registered 0 (.token (.literal "1")), .reference 0 "x"]) := rfl
  have hgrammar : ("b", 1) ∈ (run cascade).grammars := List.mem_cons_self
  have hheld : (Chronicle.of cascade).Held (run cascade) 0 :=
    .inr ⟨_, .inside (.grammar hgrammar hbound) List.mem_cons_self⟩
  have hdropped : ¬ (Chronicle.of (cascade ++ [.dropGrammar "b"])).Held
      (run (cascade ++ [.dropGrammar "b"])) 0 := by
    have hlive {r : Rule} (hr : (Chronicle.of (cascade ++ [.dropGrammar "b"])).Live
        (run (cascade ++ [.dropGrammar "b"])) r) : r = .reference 0 "x" := by
      induction hr with
      | slot h => exact (Prod.mk.inj (List.mem_singleton.1 h)).2
      | inside _ hq ih =>
        rw [ih] at hq
        cases hq
      | cell _ _ ih => cases ih
      | grammar hg => cases hg
      | registered _ _ ih => cases ih
    rintro (⟨grammar, hg⟩ | ⟨q, hq⟩)
    · cases hg
    · cases hlive hq
  refine ⟨rfl, (hreference 0 "x").2 _ rfl hheld, ?_, (hreference' 0 "x").1.2 (.inr hdropped)⟩
  obtain ⟨htaken, -⟩ := htaken (cascade.take 3) (List.take_prefix _ _)
  obtain ⟨g, r, hg, hr, hq, hstands, -⟩ := htaken "a" "x" _ rfl
  obtain rfl : .token (.literal "1") = r := (Rule.registered.inj hq).2
  exact ⟨_, rfl, hstands⟩

end Descent
