import Descent.Proofs.Anchored
import Descent.Proofs.Room

namespace Descent

namespace Store

variable {s : Store}

theorem registry_newRegistry (g : RegistryId) : s.newRegistry.2.registry g = s.registry g := by
  rcases Nat.lt_trichotomy g s.registries.length with h | rfl | h
  · simp [newRegistry, registry, List.getElem?_append_left h]
  · simp [newRegistry, registry]
  · rw [registry, registry, List.getElem?_eq_none (by simp [newRegistry]; omega),
      List.getElem?_eq_none (by omega)]

theorem bound?_define_of_ne {g h : RegistryId} (hne : h ≠ g) (name n : String) (r : Rule) :
    (s.define g name r).bound? h n = s.bound? h n := by
  simp [bound?, registry, define, hne.symm]

theorem registry_of_le {g : RegistryId} (h : s.registries.length ≤ g) : s.registry g = .empty := by
  rw [registry, List.getElem?_eq_none h]
  rfl

theorem bound?_of_le {g : RegistryId} (h : s.registries.length ≤ g) (name : String) :
    s.bound? g name = none := by
  rw [bound?, registry_of_le h]
  rfl

theorem mem_rules_define {g : RegistryId} {name : String} {q r : Rule}
    (h : q ∈ (s.define g name r).rules) : q = r ∨ q ∈ s.rules := by
  rcases List.mem_append.1 h with h | h
  · exact .inr (List.mem_append_left _ h)
  · obtain ⟨es, hes, hq⟩ := List.mem_flatMap.1 h
    obtain ⟨e, he, rfl⟩ := List.mem_map.1 hq
    have hold {fs : Registry} (hfs : fs ∈ s.registries) (hef : e ∈ fs) : e.2 ∈ s.rules :=
      List.mem_append_right _ (List.mem_flatMap.2 ⟨fs, hfs, List.mem_map_of_mem hef⟩)
    obtain ⟨i, hi⟩ := List.mem_iff_getElem?.1 hes
    simp only [define, List.getElem?_modify, Option.map_eq_map, Option.map_eq_some_iff] at hi
    obtain ⟨fs, hfs, rfl⟩ := hi
    split at he
    · rcases Keyed.mem_insert he with rfl | he
      · exact .inl rfl
      · exact .inr (hold (List.mem_of_getElem? hfs) he)
    · exact .inr (hold (List.mem_of_getElem? hfs) he)

theorem rules_newRegistry : s.newRegistry.2.rules = s.rules := by
  simp [newRegistry, rules]

theorem Anchored.cell (h : s.Anchored) {c : CellId} {r : Rule} (hc : s.cell? c = some r) :
    r.Anchored s :=
  h r (mem_rules_of_cell hc)

theorem Anchored.bound (h : s.Anchored) {g : RegistryId} {name : String} {r : Rule}
    (hb : s.bound? g name = some r) : r.Anchored s := h r (mem_rules_of_bound hb)

end Store

theorem Plan.mapRules_bound (f : Rule → Rule) (found : Option Rule) (name : String) (c : Cursor) :
    (bound found name c).mapRules f = bound (found.map f) name c := by
  cases found <;> rfl

namespace Links

/-- In place of the rule in cell `n` stands the rule `r`, bound to `name` in registry `g`. The cells
and registries that come behind are counted without cell `n` and with registry `g`. -/
def named (n : CellId) (g : RegistryId) (name : String) (r : Rule) : Links where
  handle c := if c = n then .reference g name else .handle (if n < c then c-1 else c)
  recursive c := if c = n then .registered g r else .recursive (if n < c then c-1 else c)
  reference h m := .reference (if h < g then h else h+1) m

section

variable {n : Nat} {g : RegistryId} {name : String} {r : Rule}

theorem relink_named {s : Store} {q : Rule} (h : q.Anchored s) :
    q.relink (named s.cells.length s.registries.length name r) = q := by
  refine Rule.relink_eq_self fun p hp hlate => ?_
  have hlinked := h p hp
  cases p with
  | handle c | recursive c =>
    have hlt : c < s.cells.length := of_decide_eq_true hlinked
    simp only [Rule.relink, named, if_neg (Nat.ne_of_lt hlt), if_neg (Nat.lt_asymm hlt)]
  | reference g m =>
    have hlt : g < s.registries.length := of_decide_eq_true hlinked
    simp only [Rule.relink, named, if_pos hlt]
  | _ => cases hlate

theorem named_shifts (n : Nat) (g : RegistryId) (name : String) (r : Rule) (count : Nat) :
    (named n g name r).Shifts (n+1) n count := by
  intro i _
  have hne : n+1+i ≠ n := by omega
  have hlt : n < n+1+i := by omega
  have hsub : n+1+i-1 = n+i := by omega
  simp only [named, if_neg hne, if_pos hlt, hsub, and_self]

/-- In `t` the name is bound to what is in cell `n` of `s`, and all else is where `named` has it. -/
theorem connects_named {s t : Store} {k : Links} (hk : k = named n g name (r.relink k))
    (hbefore : ∀ c < n, t.cell? c = (s.cell? c).map (Rule.relink k))
    (hbehind : ∀ i, t.cell? (n+i) = (s.cell? (n+(i+1))).map (Rule.relink k))
    (hbound : ∀ h m, t.bound? (if h < g then h else h+1) m = (s.bound? h m).map (Rule.relink k))
    (hcell : s.cell? n = some r) (hname : t.bound? g name = some (r.relink k)) :
    k.Connects s t := by
  have hplace (c : CellId) (hne : c ≠ n) :
      t.cell? (if n < c then c-1 else c) = (s.cell? c).map (Rule.relink k) := by
    rcases Nat.lt_or_gt_of_ne hne with hlt | hlt
    · rw [if_neg (Nat.lt_asymm hlt), hbefore c hlt]
    · obtain ⟨i, rfl⟩ := Nat.exists_eq_add_of_lt hlt
      rw [if_pos hlt]
      exact hbehind i
  have hhandle (c : CellId) := congrArg (Links.handle · c) hk
  have hrecursive (c : CellId) := congrArg (Links.recursive · c) hk
  have hreference (h : RegistryId) (m : String) := congrArg (Links.reference · h m) hk
  intro q hq c
  left
  cases q with
  | handle d =>
    rw [Rule.relink, Rule.plan, Plan.mapRules_bound]
    by_cases hd : d = n
    · rw [(hhandle d).trans (if_pos hd), hd, hcell, Rule.plan, hname]
      rfl
    · rw [(hhandle d).trans (if_neg hd), Rule.plan, hplace d hd]
  | recursive d =>
    rw [Rule.relink, Rule.plan, Plan.mapRules_bound]
    by_cases hd : d = n
    · rw [(hrecursive d).trans (if_pos hd), hd, hcell]
      rfl
    · rw [(hrecursive d).trans (if_neg hd), Rule.plan, hplace d hd]
  | reference h m =>
    rw [Rule.relink, Rule.plan, Plan.mapRules_bound, ← hbound h m, hreference h m]
    rfl
  | _ => cases hq

end

end Links

namespace Rule

variable {s t : Store} {q r : Rule}

/-- Rules that apply the same way in whatever room parse the same way. -/
theorem Composed.run_congr (hs : s.Composed) (hq : q.Composed) (ht : t.Composed) (hr : r.Composed)
    {text : List Char} {l : Limits}
    (h : ∀ room, r.apply t room (.start text) (.fresh l) =
      q.apply s room (.start text) (.fresh l)) :
    r.run t text l = q.run s text l := by
  refine Option.ext fun x => ?_
  rw [hr.run_eq_some_iff ht, hq.run_eq_some_iff hs]
  exact exists_congr fun room => by rw [h]

end Rule

namespace Recipe

variable {s : Store} {given : Supply}

/-- Both ways the same cells are added, but for the links. -/
theorem buildNamed_eq (hgiven : ∀ n, (given n).Anchored s) (body : Recipe) (name : String) :
    ∃ k r inner, k = .named s.cells.length s.registries.length name (Rule.relink k r) ∧
    (recursive body).build s given = (.recursive s.cells.length, s.extend (r :: inner)) ∧
    body.buildNamed s given name = (s.registries.length,
      (s.newRegistry.2.extend (inner.map (Rule.relink k))).define s.registries.length name
        (r.relink k)) := by
  obtain ⟨inner, hinner, _⟩ := build_built body s.newCell.2 (given.push (.handle s.cells.length))
  let r := (body.build s.newCell.2 (given.push (.handle s.cells.length))).1
  let r' := (body.build s.newRegistry.2 (given.push (.reference s.registries.length name))).1
  let k := Links.named s.cells.length s.registries.length name r'
  have hpush (n : Nat) : given.push (.reference s.registries.length name) n =
      (given.push (.handle s.cells.length) n).relink k := by
    cases n with
    | zero => exact (if_pos rfl).symm
    | succ n => exact (Links.relink_named (hgiven n)).symm
  have hshift : k.Shifts s.newCell.2.cells.length s.newRegistry.2.cells.length inner.length := by
    have hlength : s.newCell.2.cells.length = s.cells.length+1 := by simp [Store.newCell]
    rw [hlength]
    exact Links.named_shifts s.cells.length _ name r' _
  have hbuild := build_relink body hpush hinner hshift
  have hr : r' = r.relink k := congrArg Prod.fst hbuild
  refine ⟨k, r, inner, by rw [← hr], ?_, ?_⟩
  · rw [build_recursive, hinner, Store.fillCell_extend]
  · change (_, Store.define (body.build s.newRegistry.2 _).2 s.registries.length name r') = _
    rw [hr, hbuild]

theorem composed_build (hs : s.Composed) (hgiven : ∀ n, (given n).Composed) (e : Recipe) :
    (e.build s given).1.Composed ∧ (e.build s given).2.Composed := by
  obtain ⟨cells, hstore, hbuilt⟩ := build_built e s given
  have hcomposed := hbuilt.composed hgiven
  refine ⟨hcomposed _ List.mem_cons_self, fun r hr => ?_⟩
  rw [hstore, Store.mem_rules_extend] at hr
  exact hr.elim (hs r) fun hr => hcomposed r (List.mem_cons_of_mem _ hr)

theorem composed_buildNamed (hs : s.Composed) (hgiven : ∀ n, (given n).Composed) (body : Recipe)
    (name : String) : (body.buildNamed s given name).2.Composed := by
  have hpush (n : Nat) : (given.push (.reference s.registries.length name) n).Composed := by
    cases n with
    | zero => exact .reference _ _
    | succ n => exact hgiven n
  obtain ⟨hr, hstore⟩ := composed_build (s := s.newRegistry.2)
    (fun r h => hs r (Store.rules_newRegistry ▸ h)) hpush body
  intro q hq
  rcases Store.mem_rules_define hq with rfl | hq
  · exact hr
  · exact hstore q hq

/-- What the name is bound to stands for the rule in the cell. -/
theorem connects_buildNamed (hs : s.Anchored) {k : Links} {r : Rule} {name : String}
    (hk : k = .named s.cells.length s.registries.length name (r.relink k)) (inner : List Rule) :
    k.Connects (s.extend (r :: inner))
      ((s.newRegistry.2.extend (inner.map (Rule.relink k))).define s.registries.length name
        (r.relink k)) := by
  have hself {found : Option Rule} (h : ∀ q, found = some q → q.Anchored s) :
      found.map (Rule.relink k) = found := by
    cases found with
    | none => rfl
    | some q => rw [Option.map_some, hk, Links.relink_named (h q rfl)]
  refine Links.connects_named hk (fun c hc => ?_) (fun i => ?_) (fun h m => ?_)
    (Store.cell?_extend_add 0) ?_
  · rw [Store.cell?_extend_of_lt hc, hself fun q hq => hs.cell hq]
    exact Store.cell?_extend_of_lt (s := s.newRegistry.2) hc
  · rw [Store.cell?_extend_add, List.getElem?_cons_succ, ← List.getElem?_map]
    exact Store.cell?_extend_add (s := s.newRegistry.2) i
  · rw [Store.bound?_extend, hself fun q hq => hs.bound hq]
    split
    · rename_i hlt
      rw [Store.bound?_define_of_ne (Nat.ne_of_lt hlt), Store.bound?_extend,
        Store.bound?, Store.bound?, Store.registry_newRegistry]
    · rename_i hlt
      rw [Store.bound?_of_le (Nat.le_of_not_lt hlt), Store.bound?_of_le]
      simpa [Store.define, Store.newRegistry] using hlt
  · rw [Store.bound?_define (by simp [Store.newRegistry]), if_pos rfl]

/-- A rule that refers to itself by its handle, and one that does by its name, are the same step by
step: they give the same results and take the same steps, within whatever limits. -/
theorem recursive_eq_named (given : Supply) (hs : s.Composed) (hanchored : s.Anchored)
    (hgiven : ∀ n, (given n).Composed ∧ (given n).Anchored s) (body : Recipe)
    (name : String) {q : Rule}
    {s₁ s₂ : Store} {g : RegistryId} (hself : (recursive body).build s given = (q, s₁))
    (hnamed : body.buildNamed s given name = (g, s₂)) : ∃ r, s₂.get? g name = some r ∧
      (∀ room c b, r.apply s₂ room c b = q.apply s₁ room c b) ∧
      ∀ text l, r.run s₂ text.toList l = q.run s₁ text.toList l ∧
        r.parseWith s₂ text l = q.parseWith s₁ text l ∧
        r.parseAllWith s₂ text l = q.parseAllWith s₁ text l := by
  obtain ⟨k, r, inner, hk, hbuild, hbuildNamed⟩ := buildNamed_eq (fun n => (hgiven n).2) body name
  obtain ⟨hq, hs₁⟩ := composed_build hs (fun n => (hgiven n).1) (recursive body)
  have hs₂ := composed_buildNamed hs (fun n => (hgiven n).1) body name
  rw [hself] at hq hs₁
  rw [hnamed] at hs₂
  obtain ⟨rfl, rfl⟩ := Prod.mk.inj (hself.symm.trans hbuild)
  obtain ⟨rfl, rfl⟩ := Prod.mk.inj (hnamed.symm.trans hbuildNamed)
  have hname : ((s.newRegistry.2.extend (inner.map (Rule.relink k))).define s.registries.length name
      (r.relink k)).bound? s.registries.length name = some (r.relink k) := by
    rw [Store.bound?_define (by simp [Store.newRegistry]), if_pos rfl]
  -- The rule that the registry gives out is the rule in the cell, but for the links.
  have hrule : (Rule.recursive s.cells.length).relink k =
      .registered s.registries.length (r.relink k) :=
    (congrArg (Links.recursive · s.cells.length) hk).trans (if_pos rfl)
  have happly (room : Nat) (c : Cursor) (b : Budget) :=
    Rule.apply_relink (connects_buildNamed hanchored hk inner) room (.recursive s.cells.length) c b
  rw [hrule] at happly
  have hregistered : (Rule.registered s.registries.length (r.relink k)).Composed :=
    .registered _ (hs₂ _ (Store.mem_rules_of_bound hname))
  have hrun (text : List Char) (l : Limits) : Rule.run _ _ text l = Rule.run _ _ text l :=
    Rule.Composed.run_congr hs₁ hq hs₂ hregistered fun room => happly room _ _
  refine ⟨_, by rw [Store.get?, hname]; rfl, happly, fun text l => ⟨hrun _ l, ?_, ?_⟩⟩
  · rw [Rule.parseWith, hrun, Rule.parseWith]
  · rw [Rule.parseAllWith, hrun, Rule.parseAllWith]

/-- Nested brackets, one level deeper than the limits admit. -/
theorem recursive_eq_named_brackets :
    ∃ r, ((buildNamed .empty (fun _ => .endOfInput) "n" (.enclosed (.token (.literal "("))
        (.repeated (.given 0)) (.token (.literal ")")))).2).get? 0 "n" = some r ∧
      r.parseAllWith
        (buildNamed .empty (fun _ => .endOfInput) "n" (.enclosed (.token (.literal "("))
          (.repeated (.given 0)) (.token (.literal ")")))).2 "(())"
        (Limits.standard.withMaxDepth 7) =
      some (.error (.fault ⟨2, 1, 3⟩ ⟨.depthLimit 7, 2⟩)) := by
  obtain ⟨r, hget, -, hparse⟩ := recursive_eq_named (s := .empty) (fun _ => .endOfInput) (by decide)
    (by decide) (fun _ => ⟨.endOfInput, by decide⟩)
    (.enclosed (.token (.literal "(")) (.repeated (.given 0)) (.token (.literal ")"))) "n" rfl rfl
  obtain ⟨-, -, hall⟩ := hparse "(())" (Limits.standard.withMaxDepth 7)
  exact ⟨r, hget, hall.trans rfl⟩

end Recipe

end Descent
