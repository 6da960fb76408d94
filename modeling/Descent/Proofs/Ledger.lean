import Descent.Proofs.Account
import Descent.Rule.Session

namespace Descent

/-- A change of an account: an application is admitted, or it is refused with a fault, or it ends.
Of one that ends the ledger has the account that it began with, too. -/
inductive Entry where
  | admitted (before after : Budget)
  | refused (f : Fault) (before after : Budget)
  | ended (start before after : Budget)

namespace Entry

def before : Entry → Budget
  | .admitted b _ | .refused _ b _ | .ended _ b _ => b

def after : Entry → Budget
  | .admitted _ b | .refused _ _ b | .ended _ _ b => b

/-- Whether an application gets past the check of its number. One that is refused for its depth
has. -/
def isCharged : Entry → Bool
  | .admitted .. => true
  | .refused f .. => f.kind = .depthLimit
  | .ended .. => false

/-- All changes there are. -/
inductive Sound : Entry → Prop
  | admitted {b : Budget} (h : b.limits.Admits (b.steps+1) (b.depth+1)) :
    Sound (.admitted b { b with steps := b.steps+1, depth := b.depth+1 })
  | refusedStep {b : Budget} {n : Nat} (offset : Nat) (h : b.limits.maxSteps = some n)
    (hn : n ≤ b.steps) : Sound (.refused ⟨.stepLimit n, offset⟩ b b)
  | refusedDepth {b : Budget} {d : Nat} (offset : Nat)
    (hs : ∀ n, b.limits.maxSteps = some n → b.steps+1 ≤ n) (h : b.limits.maxDepth = some d)
    (hd : d ≤ b.depth) : Sound (.refused ⟨.depthLimit d, offset⟩ b { b with steps := b.steps+1 })
  | ended {start b : Budget} (step : Step) (h : b.depth = start.depth+1) :
    Sound (.ended start b (b.close step))

theorem sound_admitted {b b' : Budget} {offset : Nat} (h : b.enter offset = (.ok (), b')) :
    (admitted b b').Sound := by
  rcases b.enter_cases offset with ⟨ha, he⟩ | ⟨f, n, _, he, _⟩
  · obtain rfl := congrArg Prod.snd (h.symm.trans he)
    exact .admitted ha
  · cases h.symm.trans he

theorem sound_refused {b b' : Budget} {offset : Nat} {f : Fault}
    (h : b.enter offset = (.error f, b')) : (refused f b b').Sound := by
  unfold Budget.enter at h
  cases hs : Budget.exceeded? b.limits.maxSteps (b.steps+1) with
  | some n =>
    rw [hs] at h
    obtain ⟨hf, rfl⟩ := Prod.mk.inj h
    obtain rfl := Except.error.inj hf
    obtain ⟨hn, hlt⟩ := Budget.exceeded?_eq_some_iff.1 hs
    exact .refusedStep offset hn (Nat.le_of_lt_succ hlt)
  | none =>
    have hsteps := Budget.exceeded?_eq_none_iff.1 hs
    rw [hs] at h
    cases hd : Budget.exceeded? b.limits.maxDepth (b.depth+1) with
    | some d =>
      rw [hd] at h
      obtain ⟨hf, rfl⟩ := Prod.mk.inj h
      obtain rfl := Except.error.inj hf
      obtain ⟨hn, hlt⟩ := Budget.exceeded?_eq_some_iff.1 hd
      exact .refusedDepth offset hsteps hn (Nat.le_of_lt_succ hlt)
    | none =>
      rw [hd] at h
      cases h

theorem Sound.steps_eq {e : Entry} (h : e.Sound) :
    e.after.steps = e.before.steps+e.isCharged.toNat := by
  cases h with
  | admitted | refusedStep | refusedDepth => rfl
  | ended step => exact (Budget.close_frame _ step).2.2

/-- No change of an account leads out of its limits. -/
theorem Sound.admits {e : Entry} (h : e.Sound)
    (hb : e.before.limits.Admits e.before.steps e.before.depth) :
    e.after.limits = e.before.limits ∧ e.before.limits.Admits e.after.steps e.after.depth := by
  cases h with
  | admitted h => exact ⟨rfl, h⟩
  | refusedStep => exact ⟨rfl, hb⟩
  | refusedDepth offset hs => exact ⟨rfl, hs, hb.depth⟩
  | ended step =>
    obtain ⟨hlimits, hdepth, hsteps⟩ := Budget.close_frame _ step
    refine ⟨hlimits, ?_, ?_⟩
    · intro n hn
      exact hsteps ▸ hb.steps n hn
    · intro d hd
      exact Nat.le_trans (hdepth ▸ Nat.sub_le _ _) (hb.depth d hd)

/-- The entries lead from one account to another, each from what the one before it came to. -/
def Linked : Budget → List Entry → Budget → Prop
  | b, [], b' => b' = b
  | b, e :: es, b' => e.before = b ∧ Linked e.after es b'

variable {b b' : Budget} {es : List Entry}

theorem Linked.append {b'' : Budget} {fs : List Entry} (h : Linked b es b') (k : Linked b' fs b'') :
    Linked b (es ++ fs) b'' := by
  induction es generalizing b with
  | nil =>
    obtain rfl : b' = b := h
    exact k
  | cons e es ih => exact ⟨h.1, ih h.2⟩

theorem Linked.steps_eq (h : Linked b es b') (hs : ∀ e ∈ es, e.Sound) :
    b'.steps = b.steps+es.countP isCharged := by
  induction es generalizing b with
  | nil =>
    obtain rfl : b' = b := h
    rfl
  | cons e es ih =>
    obtain ⟨rfl, hlinked⟩ := h
    have hrest := ih hlinked fun e he => hs e (List.mem_cons_of_mem _ he)
    rw [hrest, (hs e List.mem_cons_self).steps_eq, List.countP_cons]
    cases e.isCharged with
    | true => exact Nat.add_right_comm _ 1 _
    | false => rfl

theorem Linked.admits (h : Linked b es b') (hs : ∀ e ∈ es, e.Sound)
    (hb : b.limits.Admits b.steps b.depth) :
    ∀ e ∈ es, e.before.limits = b.limits ∧ e.after.limits = b.limits ∧
      b.limits.Admits e.before.steps e.before.depth ∧
        b.limits.Admits e.after.steps e.after.depth := by
  induction es generalizing b with
  | nil => exact fun e he => absurd he List.not_mem_nil
  | cons e es ih =>
    obtain ⟨rfl, hlinked⟩ := h
    obtain ⟨hlimits, hadmits⟩ := (hs e List.mem_cons_self).admits hb
    intro e' he'
    rcases List.mem_cons.1 he' with rfl | he'
    · exact ⟨rfl, hlimits, hb, hadmits⟩
    · rw [← hlimits] at hadmits ⊢
      exact ih hlinked (fun e he => hs e (List.mem_cons_of_mem _ he)) hadmits e' he'

end Entry

/-- What a plan does to an account; `ledger` tells it of the rules that the plan calls for. -/
def Plan.ledger (apply : Rule → Cursor → Budget → Applied)
    (ledger : Rule → Cursor → Budget → List Entry) : Plan → Budget → List Entry
  | .done _, _ => []
  | .observe _, _ => []
  | .apply r c next, b => ledger r c b ++ match apply r c b with
    | some (.ok o, b) => (next o).ledger apply ledger b
    | _ => []

/-- All changes that the application of a rule makes to an account. -/
def Rule.ledger (s : Store) : Nat → Rule → Cursor → Budget → List Entry
  | 0, _, _, _ => []
  | room+1, r, c, b =>
    match b.enter c.offset with
    | (.error f, b') => [.refused f b b']
    | (.ok (), b₁) => .admitted b b₁ ::
      ((r.plan s c).ledger (Rule.apply s room) (Rule.ledger s room) b₁ ++
        match (r.plan s c).run (Rule.apply s room) b₁ with
        | some (step, b₂) => [.ended b b₂ (b₂.close step)]
        | none => [])

theorem Plan.ledger_sound {apply : Rule → Cursor → Budget → Applied}
    {ledger : Rule → Cursor → Budget → List Entry}
    (h : ∀ r c b, ∀ e ∈ ledger r c b, e.Sound) (p : Plan)
    (b : Budget) : ∀ e ∈ p.ledger apply ledger b, e.Sound := by
  induction p generalizing b with
  | done | observe => exact fun e he => absurd he List.not_mem_nil
  | apply r c next ih =>
    intro e he
    rw [Plan.ledger] at he
    rcases List.mem_append.1 he with he | he
    · exact h r c b e he
    · split at he
      · rename_i o b' _
        exact ih o b' e he
      · cases he

theorem Rule.ledger_sound (s : Store) (room : Nat) (r : Rule) (c : Cursor) (b : Budget) :
    ∀ e ∈ r.ledger s room c b, e.Sound := by
  induction room generalizing r c b with
  | zero => exact fun e he => absurd he List.not_mem_nil
  | succ room ih =>
    intro e he
    rw [Rule.ledger] at he
    cases hb : b.enter c.offset with
    | mk x b₁ =>
      cases x with
      | error f =>
        rw [hb] at he
        obtain rfl := List.mem_singleton.1 he
        exact Entry.sound_refused hb
      | ok =>
        rw [hb] at he
        rcases List.mem_cons.1 he with rfl | he
        · exact Entry.sound_admitted hb
        rcases List.mem_append.1 he with he | he
        · exact Plan.ledger_sound ih _ _ e he
        -- What the rule applied has given its depth back, so that of the rule itself is left.
        · cases hrun : (r.plan s c).run (Rule.apply s room) b₁ with
          | none =>
            rw [hrun] at he
            cases he
          | some x =>
            obtain ⟨step, b₂⟩ := x
            rw [hrun] at he
            obtain rfl := List.mem_singleton.1 he
            have hframe := Plan.run_frame (fun _ _ _ _ _ => Rule.apply_frame) _ hrun
            refine .ended step ?_
            rw [hframe.depth, Budget.enter_ok hb]

theorem Plan.ledger_linked {apply : Rule → Cursor → Budget → Applied}
    {ledger : Rule → Cursor → Budget → List Entry}
    (h : ∀ r c b step b', apply r c b = some (step, b') → Entry.Linked b (ledger r c b) b')
    (p : Plan)
    {b b' : Budget} {step : Step} (hp : p.run apply b = some (step, b')) :
    Entry.Linked b (p.ledger apply ledger b) b' := by
  induction p generalizing b with
  | done | observe => exact congrArg Prod.snd (Option.some.inj hp).symm
  | apply r c next ih =>
    rw [Plan.run] at hp
    rw [Plan.ledger]
    split at hp
    · rename_i o b'' ha
      rw [ha]
      exact (h r c b _ b'' ha).append (ih o hp)
    · rename_i f b'' ha
      obtain rfl := congrArg Prod.snd (Option.some.inj hp)
      rw [ha, List.append_nil]
      exact h r c b _ b'' ha
    · cases hp

/-- The ledger of an application misses no change of the account. -/
theorem Rule.ledger_linked {s : Store} {room : Nat} {r : Rule} {c : Cursor}
    {b b' : Budget} {step : Step} (h : r.apply s room c b = some (step, b')) :
    Entry.Linked b (r.ledger s room c b) b' := by
  induction room generalizing r c b step b' with
  | zero => cases h
  | succ room ih =>
    rw [Rule.apply] at h
    rw [Rule.ledger]
    cases hb : b.enter c.offset with
    | mk x b₁ =>
      rw [hb] at h
      cases x with
      | error f =>
        obtain rfl := congrArg Prod.snd (Option.some.inj h)
        exact ⟨rfl, rfl⟩
      | ok =>
        obtain ⟨⟨step, b₂⟩, hrun, hx⟩ := Option.map_eq_some_iff.1 h
        obtain rfl := congrArg Prod.snd hx
        have hplan := Plan.ledger_linked (fun _ _ _ _ _ => ih) _ hrun
        dsimp only
        rw [hrun]
        exact ⟨rfl, hplan.append ⟨rfl, rfl⟩⟩

namespace Session

/-- A rule that is applied in the course of a session, with what its late-bound rules stand for by
then. -/
structure Call where
  store : Store
  rule : Rule
  place : Option Nat

variable {x y : Session} {k : Call}

def cursorAt (x : Session) (place : Option Nat) : Cursor :=
  match place with
  | some offset => (Cursor.start x.text).advance offset
  | none => x.rest

def perform (x : Session) (k : Call) : Option (Step × Session) := x.apply k.store k.rule k.place

def ledger (x : Session) (k : Call) : List Entry :=
  k.rule.ledger k.store (k.rule.room k.store x.text x.budget.limits) (x.cursorAt k.place) x.budget

/-- Applies rules one after the other, each on what the one before it left of the account. -/
def performAll (x : Session) : List Call → Option (List Entry × Session)
  | [] => some ([], x)
  | k :: ks => match x.perform k with
    | some (_, y) => (y.performAll ks).map fun (es, z) => (x.ledger k ++ es, z)
    | none => none

theorem perform_budget {step : Step} (h : x.perform k = some (step, y)) :
    k.rule.apply k.store (k.rule.room k.store x.text x.budget.limits)
      (x.cursorAt k.place) x.budget = some (step, y.budget) := by
  obtain ⟨⟨step', b⟩, hb, hy⟩ := Option.map_eq_some_iff.1 h
  dsimp only at hy
  split at hy <;> obtain ⟨rfl, rfl⟩ := Prod.mk.inj hy <;> exact hb

theorem performAll_ledger {ks : List Call} {es : List Entry} (h : x.performAll ks = some (es, y)) :
    Entry.Linked x.budget es y.budget ∧ (∀ e ∈ es, e.Sound) ∧ x.budget.Frame y.budget := by
  induction ks generalizing x es with
  | nil =>
    obtain ⟨rfl, rfl⟩ := Prod.mk.inj (Option.some.inj h)
    exact ⟨rfl, fun e he => absurd he List.not_mem_nil, .refl _⟩
  | cons k ks ih =>
    rw [performAll] at h
    split at h
    · rename_i step z hz
      obtain ⟨⟨fs, y'⟩, hfs, hy⟩ := Option.map_eq_some_iff.1 h
      obtain ⟨rfl, rfl⟩ := Prod.mk.inj hy
      obtain ⟨hlinked, hsound, hframe⟩ := ih hfs
      have happly := perform_budget hz
      refine ⟨(Rule.ledger_linked happly).append hlinked, ?_,
        (Rule.apply_frame happly).trans hframe⟩
      intro e he
      rcases List.mem_append.1 he with he | he
      · exact Rule.ledger_sound _ _ _ _ _ e he
      · exact hsound e he
    · cases h

/-- A session that has used up its steps makes no other application, and keeps its account. -/
theorem perform_exhausted {n : Nat} (h : x.budget.limits.maxSteps = some n)
    (hn : n ≤ x.budget.steps) (k : Call) :
    x.perform k = some (.error ⟨.stepLimit n, (x.cursorAt k.place).offset⟩, x) := by
  have hroom : ∃ room, k.rule.room k.store x.text x.budget.limits = room+1 := by
    unfold Rule.room
    split <;> exact ⟨_, rfl⟩
  obtain ⟨room, hroom⟩ := hroom
  have hrefused := Budget.enter_refused_step (x.cursorAt k.place).offset h hn
  have happly :
      k.rule.apply k.store (k.rule.room k.store x.text x.budget.limits) (x.cursorAt k.place)
      x.budget = some (.error ⟨.stepLimit n, (x.cursorAt k.place).offset⟩, x.budget) := by
    rw [hroom, Rule.apply, hrefused]
  exact congrArg (Option.map _) happly

/-- The ledger of a session on a fresh budget, from which it leads to the last one. At no moment is
a limit passed. Each application gives its depth back when it ends, and had it to give. The steps
are those of the applications that got past the check of their number. One refused for its number
changes nothing, one refused for its depth takes a step and no more, and once the steps are used up
no application is admitted any more. -/
theorem account_kept (text : List Char) (l : Limits) (ks : List Call) {es : List Entry}
    (h : (Session.start text l).performAll ks = some (es, y)) :
    Entry.Linked (.fresh l) es y.budget ∧
    y.budget.depth = 0 ∧ y.budget.steps = es.countP Entry.isCharged ∧
    (∀ e ∈ es, e.before.limits = l ∧ e.after.limits = l ∧
      l.Admits e.before.steps e.before.depth ∧ l.Admits e.after.steps e.after.depth) ∧
    (∀ b b₁ b₂, .ended b b₁ b₂ ∈ es → b₁.depth = b₂.depth+1 ∧ b₂.depth = b.depth) ∧
    (∀ f b b', .refused f b b' ∈ es →
      f.kind = .stepLimit ∧ b' = b ∨ f.kind = .depthLimit ∧ b' = { b with steps := b.steps+1 }) ∧
    ∀ n, l.maxSteps = some n →
      (∀ b b', .admitted b b' ∈ es → b.steps ≠ n) ∧
      (∀ f b b', .refused f b b' ∈ es → b.steps = n → f.cause = .stepLimit n) ∧
      (y.budget.steps = n →
        ∀ k, y.perform k = some (.error ⟨.stepLimit n, (y.cursorAt k.place).offset⟩, y)) := by
  obtain ⟨hlinked, hsound, hframe⟩ := performAll_ledger h
  have hstart : l.Admits 0 0 := ⟨fun n _ => Nat.zero_le n, fun d _ => Nat.zero_le d⟩
  have hwithin := hlinked.admits hsound hstart
  refine ⟨hlinked, hframe.depth, ?_, hwithin, ?_, ?_, fun n hn => ⟨?_, ?_, ?_⟩⟩
  · exact (hlinked.steps_eq hsound).trans (Nat.zero_add _)
  · intro b b₁ b₂ he
    cases hsound _ he with
    | ended step hdepth =>
      have hclose := (b₁.close_frame step).2.1
      omega
  · intro f b b' he
    cases hsound _ he with
    | refusedStep => exact .inl ⟨rfl, rfl⟩
    | refusedDepth => exact .inr ⟨rfl, rfl⟩
  · intro b b' he hbn
    have hsteps := (hwithin _ he).2.2.2.steps n hn
    cases hsound _ he with
    | admitted =>
      change b.steps+1 ≤ n at hsteps
      omega
  · intro f b b' he hbn
    have hlimits : b.limits = l := (hwithin _ he).1
    rw [← hlimits] at hn
    cases hsound _ he with
    | refusedStep _ hmax =>
      obtain rfl := Option.some.inj (hmax.symm.trans hn)
      rfl
    | refusedDepth _ hmax =>
      have := hmax n hn
      omega
  · intro hyn k
    have hlimits : y.budget.limits = l := hframe.limits
    exact perform_exhausted (hlimits ▸ hn) (Nat.le_of_eq hyn.symm) k

/-- A match, a failure, a fault of the depth three rules down, and a choice stopped at its first
alternative. -/
theorem account_kept_mixed :
    ∃ es y, (Session.start "aab".toList ⟨some 2, some 6⟩).performAll
        [⟨.empty, .literal "a", some 0⟩, ⟨.empty, .literal "z", none⟩,
          ⟨.empty, .repeated (.sequence [.literal "a"]), none⟩,
          ⟨.empty, .choice [.literal "x", .literal "a"], some 2⟩] = some (es, y) ∧
      y.budget.depth = 0 ∧ y.budget.steps = 6 ∧ es.countP Entry.isCharged = 6 ∧
      y.perform ⟨.empty, .literal "a", some 1⟩ = some (.error ⟨.stepLimit 6, 1⟩, y) := by
  refine ⟨_, _, rfl, ?_⟩
  obtain ⟨_, hdepth, hsteps, _, _, _, hexhausted⟩ := account_kept "aab".toList ⟨some 2, some 6⟩
    [⟨.empty, .literal "a", some 0⟩, ⟨.empty, .literal "z", none⟩,
      ⟨.empty, .repeated (.sequence [.literal "a"]), none⟩,
      ⟨.empty, .choice [.literal "x", .literal "a"], some 2⟩] rfl
  exact ⟨hdepth, rfl, hsteps.symm, (hexhausted 6 rfl).2.2 rfl ⟨.empty, .literal "a", some 1⟩⟩

end Session

end Descent
