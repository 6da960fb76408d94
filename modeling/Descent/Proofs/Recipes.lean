import Mathlib.Data.List.Basic
import Descent.Grammar.Recipe
import Descent.Proofs.Relink

namespace Descent

namespace Store

/-- The store with more cells, all filled. -/
def extend (s : Store) (cells : List Rule) : Store := { s with cells := s.cells ++ cells.map some }

variable (s : Store) (cells : List Rule)

@[simp] theorem extend_nil : s.extend [] = s := by simp [extend]

theorem extend_append (more : List Rule) :
    s.extend (cells ++ more) = (s.extend cells).extend more := by
  simp [extend]

@[simp] theorem length_cells_extend :
    (s.extend cells).cells.length = s.cells.length+cells.length := by
  simp [extend]

@[simp] theorem registries_extend : (s.extend cells).registries = s.registries := rfl

variable {s cells}

theorem cell?_extend_of_lt {c : CellId} (h : c < s.cells.length) :
    (s.extend cells).cell? c = s.cell? c := by
  rw [cell?, extend, List.getElem?_append_left h]
  rfl

theorem cell?_extend_add (i : Nat) : (s.extend cells).cell? (s.cells.length+i) = cells[i]? := by
  rw [cell?, extend, List.getElem?_append_right (Nat.le_add_right _ _), Nat.add_sub_cancel_left,
    List.getElem?_map]
  cases cells[i]? <;> rfl

theorem bound?_extend (g : RegistryId) (name : String) :
    (s.extend cells).bound? g name = s.bound? g name := rfl

theorem mem_rules_extend {r : Rule} : r ∈ (s.extend cells).rules ↔ r ∈ s.rules ∨ r ∈ cells := by
  simp only [rules, extend, List.filterMap_append, List.filterMap_map, List.mem_append]
  have hid : List.filterMap (id ∘ some) cells = cells := List.filterMap_some
  rw [hid, or_right_comm]

theorem extend_injective {cells' : List Rule} (h : s.extend cells = s.extend cells') :
    cells = cells' := by
  have hcells : cells.map some = cells'.map some := List.append_cancel_left (congrArg Store.cells h)
  exact List.map_injective_iff.2 (fun _ _ => Option.some.inj) hcells

theorem eq_nil_of_extend (h : s = s.extend cells) : cells = [] := by
  have hextend : s.extend [] = s.extend cells := s.extend_nil.trans h
  exact (extend_injective hextend).symm

/-- A cell that is filled when the cells behind it are. -/
theorem fillCell_extend (r : Rule) :
    ((s.newCell.2).extend cells).fillCell s.cells.length r = s.extend (r :: cells) := by
  simp [newCell, extend, fillCell]

end Store

namespace Rule

/-- Whether an operator is outermost in the rule. -/
def isOperator : Rule → Bool
  | .handle _ | .recursive _ | .reference .. | .registered .. | .primitive _ | .adapt .. => false
  | _ => true

end Rule

namespace Recipe

/-- What an operator is to be given. -/
def children : Recipe → List Recipe
  | .choice es | .sequence es => es
  | .repeated e | .mapped e _ | .discard e | .optional e | .label e _ => [e]
  | .separated e d _ => [e, d]
  | .enclosed l e t => [l, e, t]
  | .pair a b d => [a, b, d]
  | .given _ | .token _ | .endOfInput | .recursive _ => []

/-- Whether an operator is outermost. -/
def isOperator : Recipe → Bool
  | .given _ | .recursive _ => false
  | _ => true

theorem sizeOf_lt_of_child {e d : Recipe} (h : d ∈ e.children) : sizeOf d < sizeOf e := by
  cases e with
  | given | token | endOfInput | recursive => cases h
  | choice es | sequence es =>
    have hlt : sizeOf d < sizeOf es := List.sizeOf_lt_of_mem h
    simp
    omega
  | repeated | mapped | discard | optional | label =>
    obtain rfl := List.mem_singleton.1 h
    simp
    try omega
  | separated | enclosed | pair =>
    simp only [children, List.mem_cons, List.not_mem_nil, or_false] at h
    rcases h with rfl | rfl | rfl <;> simp <;> omega

/-- Induction on what a recipe is made of, whatever the operators. -/
theorem induction {P : Recipe → Prop} (given : ∀ n, P (.given n))
    (recursive : ∀ e, P e → P (.recursive e))
    (operator : ∀ e, e.isOperator → (∀ d ∈ e.children, P d) → P e) (e : Recipe) : P e := by
  induction hn : sizeOf e using Nat.strongRecOn generalizing e with
  | ind n ih =>
    have hchild : ∀ d ∈ e.children, P d := fun d hd => ih _ (hn ▸ sizeOf_lt_of_child hd) d rfl
    cases e with
    | given n => exact given n
    | recursive body => exact recursive body (ih _ (by subst hn; simp) body rfl)
    | _ => exact operator _ rfl hchild

/-- The rule that an operator makes of what it is given. -/
def node : Recipe → List Rule → Rule
  | .token p, _ => .token p
  | .choice _, rs => .choice rs
  | .sequence _, rs => .sequence rs
  | .repeated _, [r] => .repeated r
  | .separated _ _ trailing, [r, d] => .separated r d trailing
  | .enclosed .., [l, r, t] => .enclosed l r t
  | .pair .., [a, b, d] => .pair a b d
  | .mapped _ transform, [r] => .mapped r transform
  | .discard _, [r] => .discard r
  | .optional _, [r] => .optional r
  | .label _ name, [r] => .label r name
  | _, _ => .endOfInput

theorem build_operator {e : Recipe} (he : e.isOperator) (s : Store) (given : Supply) :
    e.build s given = (e.node (buildList s given e.children).1,
      (buildList s given e.children).2) := by
  cases e with
  | given | recursive => cases he
  | _ => rfl

/-- An operator that is given as much as it takes is outermost in the rule that it makes. -/
theorem node_operator {e : Recipe} (he : e.isOperator) {rs : List Rule}
    (h : rs.length = e.children.length) : (e.node rs).isOperator ∧ (e.node rs).children = rs ∧
      ∀ k, (e.node rs).relink k = e.node (rs.map (Rule.relink k)) := by
  cases e with
  | given | recursive => cases he
  | token | endOfInput =>
    obtain rfl := List.eq_nil_of_length_eq_zero h
    exact ⟨rfl, rfl, fun _ => rfl⟩
  | choice | sequence =>
    exact ⟨rfl, rfl, fun k => by rw [node, node, Rule.relink, Rule.relinkList_eq]⟩
  | repeated | mapped | discard | optional | label =>
    obtain ⟨r, rfl⟩ := List.length_eq_one_iff.1 h
    exact ⟨rfl, rfl, fun _ => rfl⟩
  | separated =>
    obtain ⟨r, d, rfl⟩ := List.length_eq_two.1 h
    exact ⟨rfl, rfl, fun _ => rfl⟩
  | enclosed | pair =>
    obtain ⟨a, b, c, rfl⟩ := List.length_eq_three.1 h
    exact ⟨rfl, rfl, fun _ => rfl⟩

theorem buildList_cons (s : Store) (given : Supply) (e : Recipe) (es : List Recipe) :
    buildList s given (e :: es) =
      ((e.build s given).1 :: (buildList (e.build s given).2 given es).1,
        (buildList (e.build s given).2 given es).2) := rfl

theorem build_recursive (s : Store) (given : Supply) (e : Recipe) : (recursive e).build s given =
    (.recursive s.cells.length,
      (e.build s.newCell.2 (given.push (.handle s.cells.length))).2.fillCell s.cells.length
      (e.build s.newCell.2 (given.push (.handle s.cells.length))).1) := rfl

theorem length_buildList (s : Store) (given : Supply) (es : List Recipe) :
    (buildList s given es).1.length = es.length := by
  induction es generalizing s with
  | nil => rfl
  | cons e es ih => rw [buildList, List.length_cons, List.length_cons, ih]

/-- What building comes to, when the next new cell is `next`: the rules that are built, and the new
cells. -/
inductive Built : Supply → Nat → List Rule → List Rule → Prop
  | nil (given : Supply) (next : Nat) : Built given next [] []
  | given {given : Supply} {next : Nat} {rs cells : List Rule} (n : Nat)
    (h : Built given next rs cells) : Built given next (given n :: rs) cells
  | recursive {given : Supply} {next : Nat} {r : Rule} {rs inner cells : List Rule}
    (hbody : Built (given.push (.handle next)) (next+1) [r] inner)
    (h : Built given (next+1+inner.length) rs cells) :
    Built given next (.recursive next :: rs) (r :: inner ++ cells)
  | operator {given : Supply} {next : Nat} {r : Rule} {rs inner cells : List Rule}
    (hr : r.isOperator)
    (hargs : Built given next r.children inner) (h : Built given (next+inner.length) rs cells) :
    Built given next (r :: rs) (inner ++ cells)

namespace Built

variable {given : Supply} {next : Nat} {rs rs' cells cells' : List Rule}

theorem recursive_one {r : Rule} (h : Built (given.push (.handle next)) (next+1) [r] cells) :
    Built given next [.recursive next] (r :: cells) := by
  have hbuilt := Built.recursive h (.nil given _)
  rwa [List.append_nil] at hbuilt

theorem operator_one {r : Rule} (hr : r.isOperator) (h : Built given next r.children cells) :
    Built given next [r] cells := by
  have hbuilt := Built.operator hr h (.nil given _)
  rwa [List.append_nil] at hbuilt

theorem append (h : Built given next rs cells) (h' : Built given (next+cells.length) rs' cells') :
    Built given next (rs ++ rs') (cells ++ cells') := by
  induction h with
  | nil => exact h'
  | given n _ ih => exact .given n (ih h')
  | @recursive given next r rs inner cells hbody _ _ ih =>
    rw [List.append_assoc]
    refine .recursive hbody (ih ?_)
    rw [List.length_append, List.length_cons] at h'
    rwa [show next+1+inner.length+cells.length = next+(inner.length+1+cells.length) by omega]
  | operator hr hargs _ _ ih =>
    rw [List.append_assoc]
    refine .operator hr hargs (ih ?_)
    rwa [List.length_append, ← Nat.add_assoc] at h'

end Built

theorem buildList_built {es : List Recipe} {given : Supply} (h : ∀ e ∈ es, ∀ s : Store,
      ∃ cells, (e.build s given).2 = s.extend cells ∧
        Built given s.cells.length [(e.build s given).1] cells)
    (s : Store) : ∃ cells, (buildList s given es).2 = s.extend cells ∧
      Built given s.cells.length (buildList s given es).1 cells := by
  induction es generalizing s with
  | nil => exact ⟨[], s.extend_nil.symm, .nil _ _⟩
  | cons e es ih =>
    obtain ⟨cells, hstore, hbuilt⟩ := h e List.mem_cons_self s
    obtain ⟨more, hstore', hbuilt'⟩ :=
      ih (fun d hd => h d (List.mem_cons_of_mem _ hd)) (e.build s given).2
    refine ⟨cells ++ more, ?_, ?_⟩
    · rw [buildList_cons, hstore', hstore, Store.extend_append]
    · rw [buildList_cons]
      rw [hstore, Store.length_cells_extend] at hbuilt'
      rw [hstore]
      exact hbuilt.append hbuilt'

/-- Building adds cells, all of them filled. -/
theorem build_built (e : Recipe) (s : Store) (given : Supply) :
    ∃ cells, (e.build s given).2 = s.extend cells ∧
      Built given s.cells.length [(e.build s given).1] cells := by
  induction e using Recipe.induction generalizing s given with
  | given n => exact ⟨[], s.extend_nil.symm, .given n (.nil _ _)⟩
  | recursive e ih =>
    obtain ⟨inner, hstore, hbuilt⟩ := ih s.newCell.2 (given.push (.handle s.cells.length))
    refine ⟨(e.build s.newCell.2 (given.push (.handle s.cells.length))).1 :: inner, ?_, ?_⟩
    · rw [build_recursive, hstore, Store.fillCell_extend]
    · have hlength : s.newCell.2.cells.length = s.cells.length+1 := by simp [Store.newCell]
      rw [hlength] at hbuilt
      exact hbuilt.recursive_one
  | operator e he ih =>
    obtain ⟨cells, hstore, hbuilt⟩ := buildList_built (fun d hd s => ih d hd s given) s
    refine ⟨cells, ?_, ?_⟩
    · rw [build_operator he, hstore]
    · obtain ⟨hop, hchildren, -⟩ := node_operator he (length_buildList s given e.children)
      rw [build_operator he]
      exact .operator_one hop (hchildren.symm ▸ hbuilt)

end Recipe

/-- The `count` cells from `n` on are replaced by those from `n'` on. -/
def Links.Shifts (k : Links) (n n' count : Nat) : Prop :=
  ∀ i < count, k.handle (n+i) = .handle (n'+i) ∧ k.recursive (n+i) = .recursive (n'+i)

namespace Links.Shifts

variable {k : Links} {n n' count : Nat}

theorem mono (h : k.Shifts n n' count) {m : Nat} (hm : m ≤ count) : k.Shifts n n' m :=
  fun i hi => h i (Nat.lt_of_lt_of_le hi hm)

theorem add {j : Nat} (h : k.Shifts n n' (j+count)) : k.Shifts (n+j) (n'+j) count := by
  intro i hi
  rw [Nat.add_assoc, Nat.add_assoc]
  exact h (j+i) (by omega)

end Links.Shifts

namespace Recipe

variable {k : Links} {given given' : Supply} {cells : List Rule}

theorem buildList_relink {es : List Recipe} (h : ∀ e ∈ es, ∀ (s s' : Store) (cells : List Rule),
      (e.build s given).2 = s.extend cells → k.Shifts s.cells.length s'.cells.length cells.length →
      e.build s' given' = ((e.build s given).1.relink k, s'.extend (cells.map (Rule.relink k))))
    {s s' : Store} (hstore : (buildList s given es).2 = s.extend cells)
    (hshift : k.Shifts s.cells.length s'.cells.length cells.length) : buildList s' given' es =
      ((buildList s given es).1.map (Rule.relink k), s'.extend (cells.map (Rule.relink k))) := by
  induction es generalizing s s' cells with
  | nil =>
    obtain rfl := Store.eq_nil_of_extend hstore
    rw [List.map_nil, Store.extend_nil]
    rfl
  | cons e es ih =>
    obtain ⟨first, hfirst, _⟩ := build_built e s given
    obtain ⟨more, hmore, _⟩ :=
      buildList_built (fun d (_ : d ∈ es) s => build_built d s given) (s.extend first)
    rw [buildList_cons, hfirst, hmore, ← Store.extend_append] at hstore
    obtain rfl := Store.extend_injective hstore
    rw [List.length_append] at hshift
    have hbuild := h e List.mem_cons_self s s' first hfirst (hshift.mono (Nat.le_add_right _ _))
    have hshift' :
        k.Shifts (s.extend first).cells.length (s'.extend (first.map (Rule.relink k))).cells.length
        more.length := by simpa using hshift.add
    have hbuild' := ih (fun d hd => h d (List.mem_cons_of_mem _ hd)) hmore hshift'
    rw [buildList_cons, buildList_cons, hbuild, hfirst, hbuild', List.map_cons, List.map_append,
      Store.extend_append]

/-- From rules that differ by their late-bound parts alone, the same recipe builds rules that differ
the same way. -/
theorem build_relink (e : Recipe) (hgiven : ∀ n, given' n = (given n).relink k) {s s' : Store}
    (hstore : (e.build s given).2 = s.extend cells)
    (hshift : k.Shifts s.cells.length s'.cells.length cells.length) :
    e.build s' given' = ((e.build s given).1.relink k, s'.extend (cells.map (Rule.relink k))) := by
  induction e using Recipe.induction generalizing s s' given given' cells with
  | given n =>
    obtain rfl := Store.eq_nil_of_extend hstore
    rw [List.map_nil, Store.extend_nil, build, build, hgiven]
  | recursive e ih =>
    obtain ⟨inner, hinner, _⟩ := build_built e s.newCell.2 (given.push (.handle s.cells.length))
    rw [build_recursive, hinner, Store.fillCell_extend] at hstore
    obtain rfl := Store.extend_injective hstore
    rw [List.length_cons, Nat.add_comm] at hshift
    obtain ⟨hhandle, hrecursive⟩ := hshift 0 (by omega)
    have hpush (n : Nat) : (given'.push (.handle s'.cells.length)) n =
        ((given.push (.handle s.cells.length)) n).relink k := by
      cases n with
      | zero => exact hhandle.symm
      | succ n => exact hgiven n
    have hlength (s : Store) : s.newCell.2.cells.length = s.cells.length+1 := by
      simp [Store.newCell]
    have hshift' : k.Shifts s.newCell.2.cells.length s'.newCell.2.cells.length inner.length := by
      rw [hlength, hlength]
      exact hshift.add
    have hbuild := ih hpush hinner hshift'
    rw [build_recursive, build_recursive, hbuild, Store.fillCell_extend, List.map_cons]
    exact congrArg (Prod.mk · _) hrecursive.symm
  | operator e he ih =>
    rw [build_operator he] at hstore ⊢
    obtain ⟨-, -, hrelink⟩ := node_operator he (length_buildList s given e.children)
    rw [build_operator he, buildList_relink (fun d hd s s' cells => ih d hd hgiven) hstore
      hshift, hrelink]

namespace Built

variable {next : Nat} {rs : List Rule}

/-- What holds of the parts of the given rules, of operators and of rules in cells holds of all that
is built. -/
theorem parts {P : Rule → Prop} {low top : Nat} (hop : ∀ r : Rule, r.isOperator → P r)
    (hcell : ∀ c, low ≤ c → c < top → P (.handle c) ∧ P (.recursive c))
    (h : Built given next rs cells)
    (hgiven : ∀ n, ∀ q ∈ (given n).parts, P q) (hlow : low ≤ next)
    (htop : next+cells.length ≤ top) :
    ∀ r ∈ rs ++ cells, ∀ q ∈ r.parts, P q := by
  induction h with
  | nil => exact fun _ hr => absurd hr List.not_mem_nil
  | given n _ ih =>
    intro r hr
    rcases List.mem_cons.1 hr with rfl | hr
    · exact hgiven n
    · exact ih hgiven hlow htop r hr
  | @recursive given next q rs inner cells _ _ ihbody ih =>
    rw [List.length_append, List.length_cons] at htop
    obtain ⟨hhandle, hrecursive⟩ := hcell next hlow (by omega)
    have hbody := ihbody (fun n => ?_) (by omega) (by omega)
    · have hrest := ih hgiven (by omega) (by omega)
      intro r hr
      simp only [List.cons_append, List.nil_append, List.mem_cons,
        List.mem_append] at hr hbody hrest
      rcases hr with rfl | hr | rfl | hr | hr
      · exact fun q hq => (List.mem_singleton.1 hq) ▸ hrecursive
      · exact hrest r (.inl hr)
      · exact hbody r (.inl rfl)
      · exact hbody r (.inr hr)
      · exact hrest r (.inr hr)
    · cases n with
      | zero => exact fun q hq => (List.mem_singleton.1 hq) ▸ hhandle
      | succ n => exact hgiven n
  | @operator given next q rs inner cells hr _ _ ihargs ih =>
    rw [List.length_append] at htop
    have hargs := ihargs hgiven hlow (by omega)
    have hrest := ih hgiven (by omega) (by omega)
    intro r hmem
    simp only [List.cons_append, List.mem_cons, List.mem_append] at hmem hargs hrest
    rcases hmem with rfl | hmem | hmem | hmem
    · intro q hq
      rw [Rule.parts_eq] at hq
      rcases List.mem_cons.1 hq with rfl | hq
      · exact hop q hr
      · obtain ⟨p, hp, hqp⟩ := Rule.mem_partsList.1 hq
        exact hargs p (.inl hp) q hqp
    · exact hrest r (.inl hmem)
    · exact hargs r (.inr hmem)
    · exact hrest r (.inr hmem)

theorem composed (h : Built given next rs cells) (hgiven : ∀ n, (given n).Composed) :
    ∀ r ∈ rs ++ cells, r.Composed := by
  intro r hr
  refine Rule.composed_iff.2 (h.parts (P := fun q => q.isPrimitive = false) (fun q hq => ?_)
    (fun _ _ _ => ⟨rfl, rfl⟩) (fun n => Rule.composed_iff.1 (hgiven n)) (Nat.zero_le _)
      (Nat.le_refl _) r hr)
  cases q with
  | primitive | adapt => cases hq
  | _ => rfl

end Built

end Recipe

end Descent
