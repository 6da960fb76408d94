import Descent.Proofs.Faults
import Descent.Proofs.LateBinding
import Descent.Proofs.Lifetime

namespace Descent

theorem Plan.forward_run (apply : Rule → Cursor → Budget → Applied) (r : Rule) (c : Cursor)
    (b : Budget) : (forward r c).run apply b = apply r c b := by
  rw [forward, run]
  cases apply r c b with
  | none => rfl
  | some x =>
    obtain ⟨step, b'⟩ := x
    cases step <;> rfl

theorem Budget.enter_unbounded {b : Budget} (hb : b.limits = .unbounded) (offset : Nat) :
    b.enter offset = (.ok (), { b with steps := b.steps+1, depth := b.depth+1 }) := by
  rcases enter_cases b offset with ⟨_, he⟩ | ⟨f, _, hf, _⟩
  · exact he
  · rw [hb] at hf
    exact absurd hf Limits.not_refuses_unbounded

namespace Rule

variable {s : Store} {r : Rule} {room : Nat} {c : Cursor} {b b' : Budget} {step : Step}

/-- A failure that was recorded is recorded again without a trace. -/
theorem apply_recorded {f : Failure} (h : r.apply s room c b = some (.ok (.failure f), b')) :
    Failure.join b'.furthest (some f) = b'.furthest := by
  cases room with
  | zero => cases h
  | succ room =>
    rcases r.acts_cases s room c b with ⟨_, _, _, _, happly⟩ | ⟨b₁, _, _, happly⟩
    · cases happly.symm.trans h
    · obtain ⟨⟨x, b₂⟩, _, hx⟩ := Option.map_eq_some_iff.1 (happly.symm.trans h)
      obtain ⟨rfl, rfl⟩ := Prod.mk.inj hx
      have hrecord : (b₂.close (.ok (.failure f))).furthest = Failure.join b₂.furthest (some f) :=
        Budget.furthest_record b₂ f
      have hself : Failure.join (some f) (some f) = some f := congrArg some f.merge_self
      rw [hrecord, Failure.join_assoc, hself]

/-- Without limits, a rule around `r` that does nothing but apply it adds a step. -/
theorem Composed.apply_inside (hs : s.Composed) (hr : r.Composed) (hb : b.limits = .unbounded) :
    (r.apply s room c { b with steps := b.steps+1, depth := b.depth+1 }).map
      (fun (step, b) => (step, b.close step)) =
      (r.apply s room c b).map fun (step, b) => (step, { b with steps := b.steps+1 }) := by
  have hinside : ({ b with steps := b.steps+1, depth := b.depth+1 } : Budget).limits = .unbounded :=
    hb
  have happly : r.apply s room c { b with steps := b.steps+1, depth := b.depth+1 } =
      (r.trace s room c).step.map (·, Budget.after { b with steps := b.steps+1, depth := b.depth+1 }
        (r.trace s room c).events) := by
    rw [hr.apply_eq_settle hs, Trace.settle_unbounded _ hinside]
  rw [hr.apply_eq_settle hs (b := b), Trace.settle_unbounded _ hb]
  cases hstep : (r.trace s room c).step with
  | none =>
    rw [happly, hstep]
    rfl
  | some step =>
    rw [hstep, Option.map_some] at happly
    have hplain : r.apply s room c b = some (step, b.after (r.trace s room c).events) := by
      rw [hr.apply_eq_settle hs, Trace.settle_unbounded _ hb, hstep]
      rfl
    obtain ⟨hlimits, hdepth, hsteps⟩ :=
      (Budget.after { b with steps := b.steps+1, depth := b.depth+1 }
      (r.trace s room c).events).close_frame step
    rw [happly, Option.map_some, Option.map_some, Option.map_some]
    refine congrArg (fun b => some (step, b)) (Budget.ext hlimits ?_ ?_ ?_)
    · have hinner := (apply_frame happly).depth
      have houter := (apply_frame hplain).depth
      dsimp only at hinner ⊢
      rw [hdepth, hinner, houter, Nat.add_sub_cancel]
    · rw [hsteps]
      simp only [Budget.after, Event.length_applications (b.depth+1) b.depth]
      omega
    · cases step with
      | error => rfl
      | ok o =>
        cases o with
        | success => rfl
        | failure f =>
          have hrecorded := apply_recorded happly
          rw [← Budget.furthest_record] at hrecorded
          exact hrecorded

end Rule

namespace Links

/-- In place of a rule's handle stands the rule itself, and in place of the `count` cells behind its
own the same number of cells behind those. -/
def unfolded (n count : Nat) : Links where
  handle c := if c = n then .recursive n else .handle (if n < c ∧ c ≤ n+count then c+count else c)
  recursive c := .recursive (if n < c ∧ c ≤ n+count then c+count else c)
  reference := .reference

variable {s t : Store} {n count : Nat}

theorem relink_unfolded {q : Rule} (h : q.Anchored s) :
    q.relink (unfolded s.cells.length count) = q := by
  refine Rule.relink_eq_self fun p hp hlate => ?_
  have hlinked := h p hp
  cases p with
  | handle c | recursive c =>
    have hlt : c < s.cells.length := of_decide_eq_true hlinked
    have hnot : ¬ (s.cells.length < c ∧ c ≤ s.cells.length+count) := fun hc => Nat.lt_asymm hlt hc.1
    simp only [Rule.relink, unfolded, if_neg (Nat.ne_of_lt hlt), if_neg hnot]
  | reference => rfl
  | _ => cases hlate

theorem unfolded_shifts (n count : Nat) : (unfolded n count).Shifts (n+1) (n+1+count) count := by
  intro i hi
  have hne : n+1+i ≠ n := by omega
  have hin : n < n+1+i ∧ n+1+i ≤ n+count := by omega
  have hadd : n+1+i+count = n+1+count+i := by omega
  simp only [unfolded, if_neg hne, if_pos hin, hadd, and_self]

/-- A handle and the rule it stands for apply the same, in one store, and so do the rules in cells
with the same in them but for the links. -/
theorem connects_unfolded (h : ∀ c, n < c → c ≤ n+count →
    t.cell? (c+count) = (t.cell? c).map (Rule.relink (unfolded n count))) :
    (unfolded n count).Connects t t := by
  intro q hq c
  cases q with
  | handle d =>
    by_cases hd : d = n
    · refine .inr ⟨rfl, ?_⟩
      simp only [Rule.relink, unfolded, if_pos hd]
      rw [hd]
      rfl
    · by_cases hin : n < d ∧ d ≤ n+count
      · left
        simp only [Rule.plan, Plan.mapRules_bound, ← h d hin.1 hin.2]
        simp only [Rule.relink, unfolded, if_neg hd, if_pos hin]
      · refine .inr ⟨rfl, ?_⟩
        simp only [Rule.relink, unfolded, if_neg hd, if_neg hin]
  | recursive d =>
    by_cases hin : n < d ∧ d ≤ n+count
    · left
      simp only [Rule.plan, Plan.mapRules_bound, ← h d hin.1 hin.2]
      simp only [Rule.relink, unfolded, if_pos hin]
    · refine .inr ⟨rfl, ?_⟩
      simp only [Rule.relink, unfolded, if_neg hin]
  | reference => exact .inr ⟨rfl, rfl⟩
  | _ => cases hq

end Links

/-- From cell `next` on there are these rules in the cells. -/
def Store.Has (s : Store) (next : Nat) (cells : List Rule) : Prop :=
  ∀ i r, cells[i]? = some r → s.cell? (next+i) = some r

namespace Store.Has

variable {s : Store} {next : Nat} {cells cells' : List Rule}

theorem left (h : s.Has next (cells ++ cells')) : s.Has next cells := by
  intro i r hr
  have hi : i < cells.length := (List.getElem?_eq_some_iff.1 hr).1
  exact h i r ((List.getElem?_append_left hi).trans hr)

theorem right (h : s.Has next (cells ++ cells')) : s.Has (next+cells.length) cells' := by
  intro i r hr
  rw [Nat.add_assoc]
  refine h _ r ?_
  rw [List.getElem?_append_right (Nat.le_add_right _ _), Nat.add_sub_cancel_left]
  exact hr

theorem cell? {r : Rule} (h : s.Has next (r :: cells)) : s.cell? next = some r := h 0 r rfl

theorem extend (s : Store) (cells : List Rule) : (s.extend cells).Has s.cells.length cells :=
  fun i _ hr => (Store.cell?_extend_add i).trans hr

theorem tail {r : Rule} (h : s.Has next (r :: cells)) : s.Has (next+1) cells := by
  have happend : s.Has next ([r] ++ cells) := h
  exact happend.right

end Store.Has

namespace Recipe

/-- Whatever keeps alive what was built keeps all its cells. -/
theorem Built.kept {s : Store} {roots : List Hold} {given : Supply} {next : Nat}
    {rs cells : List Rule} (h : Built given next rs cells) (hcells : s.Has next cells)
    (hkept : ∀ r ∈ rs, ∀ h ∈ r.holds, s.Kept roots h) :
    ∀ c, next ≤ c → c < next+cells.length → s.Kept roots (.cell c) := by
  induction h with
  | nil => exact fun c hle hlt => absurd hlt (Nat.not_lt.2 hle)
  | given n _ ih => exact ih hcells fun r hr => hkept r (List.mem_cons_of_mem _ hr)
  | @recursive given next r rs inner cells _ _ ihbody ih =>
    have hself : s.Kept roots (.cell next) := hkept _ List.mem_cons_self _ List.mem_cons_self
    have hr : ∀ q ∈ [r], ∀ h ∈ q.holds, s.Kept roots h := by
      intro q hq h hh
      obtain rfl := List.mem_singleton.1 hq
      refine .held hself ?_
      rw [Store.holdsOf, hcells.left.cell?]
      exact hh
    have hbody := ihbody hcells.left.tail hr
    have hrest := ih (by simpa [Nat.add_assoc, Nat.add_comm 1] using hcells.right)
      fun q hq => hkept q (List.mem_cons_of_mem _ hq)
    intro c hle hlt
    rw [List.length_append, List.length_cons] at hlt
    by_cases hc : c = next
    · exact hc ▸ hself
    · by_cases hin : c < next+1+inner.length
      · exact hbody c (by omega) hin
      · exact hrest c (by omega) (by omega)
  | @operator given next r rs inner cells _ _ _ ihargs ih =>
    have hr : ∀ q ∈ r.children, ∀ h ∈ q.holds, s.Kept roots h := by
      intro q hq h hh
      refine hkept r List.mem_cons_self h ?_
      rw [Rule.holds_eq]
      exact List.mem_append_right _ (Rule.mem_holdsList.2 ⟨q, hq, hh⟩)
    have hargs := ihargs hcells.left hr
    have hrest := ih hcells.right fun q hq => hkept q (List.mem_cons_of_mem _ hq)
    intro c hle hlt
    rw [List.length_append] at hlt
    by_cases hin : c < next+inner.length
    · exact hargs c hle hin
    · exact hrest c (by omega) (by omega)

variable {s : Store} {given : Supply}

/-- What a rule that refers to itself and its unfolding are built of. -/
theorem build_unfolded (hgiven : ∀ n, (given n).Anchored s) (body : Recipe) : ∃ r inner,
    (recursive body).build s given = (.recursive s.cells.length, s.extend (r :: inner)) ∧
    body.build (s.extend (r :: inner)) (given.push (.recursive s.cells.length)) =
      (r.relink (.unfolded s.cells.length inner.length), (s.extend (r :: inner)).extend
        (inner.map (Rule.relink (.unfolded s.cells.length inner.length)))) := by
  obtain ⟨inner, hinner, _⟩ := build_built body s.newCell.2 (given.push (.handle s.cells.length))
  let r := (body.build s.newCell.2 (given.push (.handle s.cells.length))).1
  have hpush (n : Nat) : given.push (.recursive s.cells.length) n =
      (given.push (.handle s.cells.length) n).relink (.unfolded s.cells.length inner.length) := by
    cases n with
    | zero => exact (if_pos rfl).symm
    | succ n => exact (Links.relink_unfolded (hgiven n)).symm
  have hlength : s.newCell.2.cells.length = s.cells.length+1 := by simp [Store.newCell]
  refine ⟨r, inner, ?_, build_relink body hpush hinner ?_⟩
  · rw [build_recursive, hinner, Store.fillCell_extend]
  · have hshift := Links.unfolded_shifts s.cells.length inner.length
    rw [Store.length_cells_extend, List.length_cons, hlength]
    rwa [show s.cells.length+(inner.length+1) = s.cells.length+1+inner.length by omega]

end Recipe

namespace Rule

variable {t : Store} {q r : Rule}

/-- A rule that takes one step more than another and else comes to the same reports the same. -/
theorem parse_unfolded (ht : t.Composed) (hq : q.Composed) (hr : r.Composed)
    (h : ∀ room c b, b.limits = .unbounded → q.apply t (room+1) c b =
      (r.apply t room c b).map fun (step, b) =>
        (step, { b with steps := b.steps+1 })) (text : String) :
    q.parseWith t text .unbounded = r.parseWith t text .unbounded ∧
    q.parseAllWith t text .unbounded = r.parseAllWith t text .unbounded := by
  have hrun : q.run t text.toList .unbounded =
      (r.run t text.toList .unbounded).map fun (step, b) =>
        (step, { b with steps := b.steps+1 }) := by
    refine Option.ext fun x => ?_
    rw [hq.run_eq_some_iff ht, Option.map_eq_some_iff]
    constructor
    · rintro ⟨room, hroom⟩
      have hmore := apply_succ hroom
      rw [h room _ _ rfl] at hmore
      obtain ⟨y, hy, hyx⟩ := Option.map_eq_some_iff.1 hmore
      exact ⟨y, (hr.run_eq_some_iff ht).2 ⟨room, hy⟩, hyx⟩
    · rintro ⟨y, hy, hyx⟩
      obtain ⟨room, hroom⟩ := (hr.run_eq_some_iff ht).1 hy
      exact ⟨room+1, by rw [h room _ _ rfl, hroom, ← hyx]; rfl⟩
  have hconclude (x : Step × Budget) :
      conclude text.toList (x.1, { x.2 with steps := x.2.steps+1 }) = conclude text.toList x := by
    match x with
    | (.ok (.success _), _) | (.ok (.failure _), _) | (.error _, _) => rfl
  constructor
  · simp only [parseWith, hrun, Option.map_map]
    exact congrArg (Option.map · _) (funext fun x => by simp only [Function.comp, hconclude])
  · simp only [parseAllWith, hrun, Option.map_map]
    exact congrArg (Option.map · _) (funext fun x => by simp only [Function.comp, hconclude])

end Rule

namespace Recipe

variable {s : Store} {given : Supply}

/-- The cells of both rules are kept as long as the rules are. -/
theorem sweep_unfolded (body : Recipe) {q r : Rule} {s₁ s₂ : Store}
    (hself : (recursive body).build s given = (q, s₁))
    (hunfold : body.build s₁ (given.push q) = (r, s₂)) {roots : List Hold}
    (hroots : ∀ h ∈ q.holds ++ r.holds, s₂.Kept roots h) {c : CellId} (hle : s.cells.length ≤ c)
    (hlt : c < s₂.cells.length) : (s₂.sweep roots).cell? c = s₂.cell? c := by
  obtain ⟨cells, hstore, hbuilt⟩ := build_built (recursive body) s given
  obtain ⟨cells', hstore', hbuilt'⟩ := build_built body s₁ (given.push q)
  rw [hself] at hstore hbuilt
  rw [hunfold] at hstore' hbuilt'
  dsimp only at hstore hstore' hbuilt hbuilt'
  subst hstore hstore'
  have hhas : ((s.extend cells).extend cells').Has s.cells.length (cells ++ cells') := by
    rw [← Store.extend_append]
    exact .extend s _
  have hhas' : ((s.extend cells).extend cells').Has (s.extend cells).cells.length cells' :=
    .extend _ _
  have hrule {p : Rule} (hp : ∀ h ∈ p.holds, ((s.extend cells).extend cells').Kept roots h) :
      ∀ p' ∈ [p], ∀ h ∈ p'.holds, ((s.extend cells).extend cells').Kept roots h := by
    intro p' hp'
    obtain rfl := List.mem_singleton.1 hp'
    exact hp
  refine Store.cell?_sweep_of_kept ?_
  by_cases hc : c < s.cells.length+cells.length
  · exact hbuilt.kept hhas.left (hrule fun h hh => hroots h (List.mem_append_left _ hh)) c hle hc
  · refine hbuilt'.kept hhas' (hrule fun h hh => hroots h (List.mem_append_right _ hh)) c ?_ ?_
    · simpa using hc
    · simpa using hlt

/-- A rule that refers to itself and its unfolding come to the same without limits, wherever they
are applied and whatever was recorded before, as long as the cells that they were built with are
kept; and these are, as long as both rules are. The handle is bound then. -/
theorem recursive_unfolds (given : Supply) (hgiven : ∀ n, (given n).Composed ∧ (given n).Anchored s)
    (body : Recipe) {q r : Rule} {s₁ s₂ : Store} (hself : (recursive body).build s given = (q, s₁))
    (hunfold : body.build s₁ (given.push q) = (r, s₂)) :
    (∀ roots, (∀ h ∈ q.holds ++ r.holds, s₂.Kept roots h) →
      ∀ c, s.cells.length ≤ c → c < s₂.cells.length → (s₂.sweep roots).cell? c = s₂.cell? c) ∧
    ∀ t : Store, t.Composed → (∀ c, s.cells.length ≤ c → c < s₂.cells.length →
      t.cell? c = s₂.cell? c) → (∀ room c b, b.limits = .unbounded → q.apply t (room+1) c b =
        (r.apply t room c b).map fun (step, b) => (step, { b with steps := b.steps+1 })) ∧
      (∀ text, q.parseWith t text .unbounded = r.parseWith t text .unbounded ∧
        q.parseAllWith t text .unbounded = r.parseAllWith t text .unbounded) ∧
      (Rule.handle s.cells.length).unbound? t = none ∧ q.unbound? t = none := by
  refine ⟨fun roots hroots c => sweep_unfolded body hself hunfold hroots, fun t ht hkeeps => ?_⟩
  obtain ⟨r₀, inner, hbuild, hbuild'⟩ := build_unfolded (fun n => (hgiven n).2) body
  obtain ⟨cells, hstore, hbuilt⟩ := build_built (recursive body) s given
  rw [hbuild] at hstore hbuilt
  obtain rfl := Store.extend_injective hstore
  obtain ⟨rfl, rfl⟩ := Prod.mk.inj (hself.symm.trans hbuild)
  obtain ⟨rfl, rfl⟩ := Prod.mk.inj (hunfold.symm.trans hbuild')
  have hcomposed := hbuilt.composed fun n => (hgiven n).1
  have hr₀ : r₀.Composed := hcomposed r₀ (by simp)
  have hr : (r₀.relink (.unfolded s.cells.length inner.length)).Composed := by
    obtain ⟨cells', _, hbuilt'⟩ :=
      build_built body (s.extend (r₀ :: inner)) (given.push (.recursive s.cells.length))
    rw [hbuild'] at hbuilt'
    refine hbuilt'.composed (fun n => ?_) _ List.mem_cons_self
    cases n with
    | zero => exact .recursive _
    | succ n => exact (hgiven n).1
  -- The cells of the rule that refers to itself, and behind them those of its unfolding.
  have hhas :
      t.Has s.cells.length ((r₀ :: inner) ++
        inner.map (Rule.relink (.unfolded s.cells.length inner.length))) := by
    intro i p hp
    have hi := (List.getElem?_eq_some_iff.1 hp).1
    rw [List.length_append, List.length_map] at hi
    have hlt : s.cells.length+i < s.cells.length+(r₀ :: inner).length+inner.length := by omega
    rw [hkeeps _ (Nat.le_add_right _ _) (by simpa using hlt), ← Store.extend_append]
    exact Store.Has.extend s _ i p hp
  have hcell : t.cell? s.cells.length = some r₀ := hhas.cell?
  have hconnects : (Links.unfolded s.cells.length inner.length).Connects t t := by
    refine Links.connects_unfolded fun c hlt hle => ?_
    obtain ⟨i, rfl⟩ := Nat.exists_eq_add_of_lt hlt
    have hi : i < inner.length := by omega
    have hinner := hhas.left.tail i inner[i] (List.getElem?_eq_getElem hi)
    have hbehind :=
      hhas.right i (inner[i].relink (.unfolded s.cells.length inner.length)) (by simp [hi])
    rw [List.length_cons] at hbehind
    rw [show s.cells.length+i+1+inner.length = s.cells.length+(inner.length+1)+i by omega, hbehind,
      show s.cells.length+i+1 = s.cells.length+1+i by omega, hinner]
    rfl
  have happly (room : Nat) (c : Cursor) (b : Budget) (hb : b.limits = .unbounded) :
      (Rule.recursive s.cells.length).apply t (room+1) c b =
        ((r₀.relink (.unfolded s.cells.length inner.length)).apply t room c b).map fun (step, b) =>
          (step, { b with steps := b.steps+1 }) := by
    rw [Rule.apply, Budget.enter_unbounded hb, Rule.apply_relink hconnects,
      ← hr₀.apply_inside ht hb]
    dsimp only
    rw [Rule.plan, hcell, Plan.bound, Plan.forward_run]
  refine ⟨happly, Rule.parse_unfolded ht (.recursive _) hr happly, ?_, ?_⟩
  · rw [Rule.unbound?, hcell]
    rfl
  · rw [Rule.unbound?, hcell]
    rfl

/-- Round brackets with square ones inside, which refer to both. -/
theorem recursive_unfolds_nested : ∃ q r s₁ s₂,
    (recursive (.enclosed (.token (.literal "(")) (.repeated (.recursive
        (.choice [.enclosed (.token (.literal "[")) (.given 0) (.token (.literal "]")), .given 1])))
      (.token (.literal ")")))).build .empty (fun _ => .endOfInput) = (q, s₁) ∧
    (Recipe.enclosed (.token (.literal "(")) (.repeated (.recursive
        (.choice [.enclosed (.token (.literal "[")) (.given 0) (.token (.literal "]")), .given 1])))
      (.token (.literal ")"))).build s₁ (Supply.push (fun _ => .endOfInput) q) = (r, s₂) ∧
    (s₂.sweep (q.holds ++ r.holds)).cell? 1 = s₂.cell? 1 ∧
    q.parseAllWith s₂ "([()]())" .unbounded = r.parseAllWith s₂ "([()]())" .unbounded ∧
    r.parseAllWith s₂ "([()]())" .unbounded = some (.ok (.list [.list [], .list []])) ∧
    q.apply s₂ 9 (.start ['(', '[', ']']) (.fresh .unbounded) =
      (r.apply s₂ 8 (.start ['(', '[', ']']) (.fresh .unbounded)).map fun (step, b) =>
        (step, { b with steps := b.steps+1 }) := by
  refine ⟨_, _, _, _, rfl, rfl, ?_⟩
  obtain ⟨hsweep, hunfolds⟩ := recursive_unfolds (s := .empty) (fun _ => .endOfInput)
    (fun _ => ⟨.endOfInput, by decide⟩) (.enclosed (.token (.literal "(")) (.repeated (.recursive
        (.choice [.enclosed (.token (.literal "[")) (.given 0) (.token (.literal "]")), .given 1])))
      (.token (.literal ")"))) rfl rfl
  obtain ⟨happly, hparse, -⟩ := hunfolds _ (by decide) fun _ _ _ => rfl
  exact ⟨hsweep _ (fun h hh => .root hh) 1 (by decide) (by decide), (hparse "([()]())").2, rfl,
    happly 8 _ _ rfl⟩

end Recipe

end Descent
