import Descent.Grammar.Program
import Descent.Proofs.Ownership

namespace Descent

/-- All that a program has made so far, whether it is still alive or not. -/
structure Chronicle where
  /-- The store as it would be if nothing ever died. -/
  ever : Store
  /-- The rules that were bound, each with its registry and name, the last one first. -/
  bindings : List (RegistryId × String × Rule)

theorem Workspace.mem_roots {w : Workspace} {h : Hold} :
    h ∈ w.roots ↔ (∃ e ∈ w.grammars, h = .registry e.2) ∨ ∃ e ∈ w.slots, h ∈ e.2.holds := by
  simp only [roots, List.mem_append, List.mem_map, List.mem_flatMap, Keyed.mem_def, eq_comm]

namespace Chronicle

def blank : Chronicle := ⟨.empty, []⟩

/-- The rule that was bound to a name last, by whatever handle of the registry. -/
def latest? (k : Chronicle) (g : RegistryId) (name : String) : Option Rule :=
  (k.bindings.find? fun b => b.1 = g ∧ b.2.1 = name).map fun b => b.2.2

def bind (k : Chronicle) (g : RegistryId) (name : String) (r : Rule) : Chronicle :=
  ⟨k.ever.define g name r, (g, name, r) :: k.bindings⟩

/-- Notes down what an action is about to build and bind in the workspace. -/
def note (k : Chronicle) (w : Workspace) : Action → Chronicle
  | .newGrammar _ => { k with ever := k.ever.newRegistry.2 }
  | .define grammar name sources recipe _ =>
    match w.grammar? grammar, sources.mapM w.source? with
    | some g, some rs =>
      let (r, ever) := recipe.build k.ever (.ofList rs)
      { k with ever }.bind g name r
    | _, _ => k
  | .keep _ sources recipe =>
    match sources.mapM w.source? with
    | some rs => { k with ever := (recipe.build k.ever (.ofList rs)).2 }
    | none => k
  | .share .. | .dropGrammar _ | .dropSlot _ => k

/-- What is noted down when the actions go on from here. -/
def follow (w : Workspace) (k : Chronicle) : List Action → Chronicle
  | [] => k
  | a :: actions => follow (w.perform a) (k.note w a) actions

def of (actions : List Action) : Chronicle := follow .empty blank actions

/-- The rules that someone has: those in slots, and with a rule all rules inside it, the one in its
cell, and the ones that names are bound to in a registry that someone holds. -/
inductive Live (k : Chronicle) (w : Workspace) : Rule → Prop
  | slot {slot : String} {r : Rule} (h : (slot, r) ∈ w.slots) : Live k w r
  | inside {r q : Rule} (hr : Live k w r) (hq : q ∈ r.children) : Live k w q
  | cell {c : CellId} {r : Rule} (hc : Live k w (.recursive c)) (hr : k.ever.cell? c = some r) :
      Live k w r
  | grammar {grammar name : String} {g : RegistryId} {r : Rule} (hg : (grammar, g) ∈ w.grammars)
    (hr : k.latest? g name = some r) : Live k w r
  | registered {name : String} {g : RegistryId} {q r : Rule} (hq : Live k w (.registered g q))
    (hr : k.latest? g name = some r) : Live k w r

/-- Whether anyone holds a registry: a grammar, or a rule taken from it that someone has. -/
def Held (k : Chronicle) (w : Workspace) (g : RegistryId) : Prop :=
  (∃ grammar, (grammar, g) ∈ w.grammars) ∨ ∃ q, k.Live w (.registered g q)

theorem latest?_bind (k : Chronicle) (g h : RegistryId) (name n : String) (r : Rule) :
    (k.bind g name r).latest? h n = if g = h ∧ name = n then some r else k.latest? h n := by
  simp only [latest?, bind, List.find?_cons]
  by_cases hb : g = h ∧ name = n
  · simp [hb]
  · simp [hb]

theorem follow_append (w : Workspace) (k : Chronicle) (actions : List Action) (a : Action) :
    follow w k (actions ++ [a]) = (follow w k actions).note (actions.foldl .perform w) a := by
  induction actions generalizing w k with
  | nil => rfl
  | cons b actions ih => exact ih _ _

theorem of_append (actions : List Action) (a : Action) :
    of (actions ++ [a]) = (of actions).note (.run actions) a := follow_append _ _ actions a

/-- What the chronicle says of itself: no rule in it goes by what is not there, no cell owns itself
by way of cells alone, and each name is bound to the rule that was bound to it last. -/
structure Sound (k : Chronicle) : Prop where
  anchored : k.ever.Anchored
  grounded : k.ever.Grounded
  latest : ∀ g name, k.ever.bound? g name = k.latest? g name

namespace Sound

variable {k : Chronicle}

theorem blank : Sound blank where
  anchored _ h := absurd h List.not_mem_nil
  grounded c hc := by
    obtain ⟨b, hb, _⟩ := Relation.TransGen.head'_iff.1 hc
    cases hb
  latest g name := rfl

theorem newRegistry (h : k.Sound) : Sound { k with ever := k.ever.newRegistry.2 } where
  anchored r hr := by
    rw [Store.rules_newRegistry] at hr
    exact (h.anchored r hr).newRegistry
  grounded := h.grounded
  latest g name := by
    rw [Store.bound?, Store.registry_newRegistry]
    exact h.latest g name

theorem extend {given : Supply} {rs cells : List Rule} (h : k.Sound)
    (hbuilt : Recipe.Built given k.ever.cells.length rs cells)
    (hgiven : ∀ n, (given n).Anchored k.ever) :
    Sound { k with ever := k.ever.extend cells } where
  anchored r hr := by
    rcases Store.mem_rules_extend.1 hr with hr | hr
    · exact (h.anchored r hr).extend cells
    · exact hbuilt.anchored hgiven r (List.mem_append_right _ hr)
  grounded := by
    refine Store.grounded_extend h.grounded h.anchored fun i r hr c hc => ?_
    have habove := hbuilt.above (P := fun k' => ∀ c, k' = .cell c → c < k.ever.cells.length)
      (fun n k' hk c hc => Store.lt_of_holds (hgiven n) (hc ▸ hk)) hr _ hc
    rcases habove with hlt | ⟨d, hd, heq⟩
    · exact .inl (hlt c rfl)
    · obtain rfl := Hold.cell.inj heq
      exact .inr hd
  latest := h.latest

theorem bind {g : RegistryId} {r : Rule} (h : k.Sound) (hg : g < k.ever.registries.length)
    (hr : r.Anchored k.ever) (name : String) : (k.bind g name r).Sound where
  anchored q hq := by
    rcases Store.mem_rules_define hq with rfl | hq
    · exact hr.define g name q
    · exact (h.anchored q hq).define g name r
  grounded := h.grounded
  latest d n := by
    rw [latest?_bind, ← h.latest]
    by_cases hd : d = g
    · subst hd
      rw [Chronicle.bind, Store.bound?_define hg]
      simp
    · rw [if_neg fun hc => hd hc.1.symm]
      exact Store.bound?_define_of_ne hd name n r

/-- What an entry of a registry binds is what was bound last. -/
theorem mem_registry (h : k.Sound) {g : RegistryId} {e : String × Rule} :
    e ∈ k.ever.registry g ↔ k.latest? g e.1 = some e.2 := by
  rw [← h.latest]
  exact Keyed.get?_eq_some_iff.symm

end Sound

theorem Live.part {k : Chronicle} {w : Workspace} {r q : Rule} (hr : k.Live w r)
    (hq : q ∈ r.parts) : k.Live w q := by
  induction r using Rule.childInduction with
  | h r ih =>
    rw [Rule.parts_eq] at hq
    rcases List.mem_cons.1 hq with rfl | hq
    · exact hr
    · obtain ⟨p, hp, hq⟩ := Rule.mem_partsList.1 hq
      exact ih p hp (.inside hr hp) hq

/-- Someone has a rule that goes by this cell, or holds this registry. -/
def HeldBy (k : Chronicle) (w : Workspace) : Hold → Prop
  | .cell c => k.Live w (.recursive c)
  | .registry g => k.Held w g

theorem Live.heldBy {k : Chronicle} {w : Workspace} {r : Rule} (hr : k.Live w r) {h : Hold}
    (hh : h ∈ r.holds) : k.HeldBy w h := by
  obtain ⟨q, hq, hh⟩ := Rule.mem_holds.1 hh
  have hlive := hr.part hq
  cases q with
  | recursive c =>
    cases hh
    exact hlive
  | registered g q =>
    cases hh
    exact .inr ⟨q, hlive⟩
  | _ => cases hh

namespace Sound

variable {k : Chronicle} {w : Workspace} (hk : k.Sound)
include hk

theorem mem_holdsOf {g : RegistryId} {h : Hold} :
    h ∈ k.ever.holdsOf (.registry g) ↔ ∃ name r, k.latest? g name = some r ∧ h ∈ r.holds := by
  rw [Store.mem_holdsOf_registry]
  constructor
  · rintro ⟨e, he, hh⟩
    exact ⟨e.1, e.2, hk.mem_registry.1 he, hh⟩
  · rintro ⟨name, r, hr, hh⟩
    exact ⟨(name, r), hk.mem_registry.2 hr, hh⟩

/-- What a rule that someone has keeps alive is kept. -/
theorem kept_of_live {r : Rule} (hr : k.Live w r) : ∀ h ∈ r.holds, k.ever.Kept w.roots h := by
  induction hr with
  | slot hr => exact fun h hh => .root (Workspace.mem_roots.2 (.inr ⟨_, hr, hh⟩))
  | inside _ hq ih =>
    intro h hh
    obtain ⟨p, hp, hh⟩ := Rule.mem_holds.1 hh
    exact ih h (Rule.mem_holds.2 ⟨p, Rule.mem_parts_of_child hq hp, hh⟩)
  | cell _ hr ih =>
    exact fun h hh => .held (ih _ List.mem_cons_self) (Store.mem_holdsOf_cell.2 ⟨_, hr, hh⟩)
  | grammar hg hr =>
    exact fun h hh => .held (.root (Workspace.mem_roots.2 (.inl ⟨_, hg, rfl⟩)))
      (hk.mem_holdsOf.2 ⟨_, _, hr, hh⟩)
  | registered _ hr ih =>
    exact fun h hh => .held (ih _ List.mem_cons_self) (hk.mem_holdsOf.2 ⟨_, _, hr, hh⟩)

theorem heldBy_iff {h : Hold} : k.HeldBy w h ↔ k.ever.Kept w.roots h := by
  constructor
  · intro hh
    cases h with
    | cell c => exact hk.kept_of_live hh _ List.mem_cons_self
    | registry g =>
      rcases hh with ⟨grammar, hg⟩ | ⟨q, hq⟩
      · exact .root (Workspace.mem_roots.2 (.inl ⟨_, hg, rfl⟩))
      · exact hk.kept_of_live hq _ List.mem_cons_self
  · refine Store.Kept.closed (fun h hh => ?_) fun k' h hk' hh => ?_
    · rcases Workspace.mem_roots.1 hh with ⟨e, he, rfl⟩ | ⟨e, he, hh⟩
      · exact .inl ⟨e.1, he⟩
      · exact Live.heldBy (.slot he) hh
    · cases k' with
      | cell c =>
        obtain ⟨r, hr, hh⟩ := Store.mem_holdsOf_cell.1 hh
        exact Live.heldBy (.cell hk' hr) hh
      | registry g =>
        obtain ⟨name, r, hr, hh⟩ := hk.mem_holdsOf.1 hh
        rcases hk' with ⟨grammar, hg⟩ | ⟨q, hq⟩
        · exact Live.heldBy (.grammar hg hr) hh
        · exact Live.heldBy (.registered hq hr) hh

end Sound

end Chronicle

end Descent
