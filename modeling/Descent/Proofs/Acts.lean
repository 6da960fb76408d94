import Descent.Proofs.Ledger

namespace Descent

/-- What happens to an application: it begins, it is refused, or it ends with a step. -/
inductive Act where
  | began (r : Rule) (c : Cursor)
  | refused (r : Rule) (c : Cursor) (f : Fault)
  | ended (r : Rule) (c : Cursor) (step : Step)

namespace Act

/-- The fault that an application is refused or ends with. -/
def fault? : Act → Option Fault
  | .refused _ _ f | .ended _ _ (.error f) => some f
  | _ => none

/-- Whether a step is taken. An application that is refused for its depth has taken its own. -/
def isCharged : Act → Bool
  | .began .. => true
  | .refused _ _ f => f.kind = .depthLimit
  | .ended .. => false

/-- An application is over, and comes to a step. -/
inductive Settles (r : Rule) (c : Cursor) : Act → Step → Prop
  | refused (f : Fault) : Settles r c (.refused r c f) (.error f)
  | ended (step : Step) : Settles r c (.ended r c step) step

/-- The failures that are recorded, in order. -/
def failures (as : List Act) : List Failure :=
  as.filterMap fun
    | .ended _ _ (.ok (.failure f)) => some f
    | _ => none

@[simp] theorem failures_append_acts (as bs : List Act) :
    failures (as ++ bs) = failures as ++ failures bs :=
  List.filterMap_append

/-- What is a fault is no failure. -/
theorem failures_of_faults {as : List Act} (h : ∀ a ∈ as, a.fault?.isSome) : failures as = [] := by
  refine List.filterMap_eq_nil_iff.2 fun a ha => ?_
  have hfault := h a ha
  match a with
  | .refused _ _ _ | .ended _ _ (.error _) => rfl
  | .began _ _ | .ended _ _ (.ok _) => cases hfault

/-- The events of what happens. An application that is refused has none. -/
def events (as : List Act) : List Event :=
  as.filterMap fun
    | .began r c => some (.opened r c)
    | .ended r c step => some (.closed r c step)
    | .refused .. => none

theorem events_append (as bs : List Act) : events (as ++ bs) = events as ++ events bs :=
  List.filterMap_append

theorem failures_events (as : List Act) : Event.failures (events as) = failures as := by
  rw [Event.failures, events, List.filterMap_filterMap, failures]
  congr
  funext a
  cases a with
  | began r c => rfl
  | refused r c f => rfl
  | ended r c step => rcases step with _ | _ | _ <;> rfl

/-- One that is found in two parts is in the first of them or in the second. -/
theorem append_split {as bs cs ds : List Act} {a : Act} (h : as ++ bs = cs ++ a :: ds) :
    (∃ es, as = cs ++ a :: es ∧ ds = es ++ bs) ∨ ∃ es, cs = as ++ es ∧ bs = es ++ a :: ds := by
  rcases List.append_eq_append_iff.1 h with ⟨es, hcs, hbs⟩ | ⟨es, has, hds⟩
  · exact .inr ⟨es, hcs, hbs⟩
  · cases es with
    | nil => exact .inr ⟨[], by rw [has, List.append_nil, List.append_nil], hds.symm⟩
    | cons e es =>
      obtain ⟨rfl, rfl⟩ := List.cons.inj hds
      exact .inl ⟨es, has, rfl⟩

end Act

/-- What happens on the way of a plan; `acts` tells it of the rules that the plan calls for. -/
def Plan.acts (apply : Rule → Cursor → Budget → Applied)
    (acts : Rule → Cursor → Budget → List Act) : Plan → Budget → List Act
  | .done _, _ => []
  | .observe _, _ => []
  | .apply r c next, b => acts r c b ++ match apply r c b with
    | some (.ok o, b) => (next o).acts apply acts b
    | _ => []

/-- All that happens in the application of a rule. -/
def Rule.acts (s : Store) : Nat → Rule → Cursor → Budget → List Act
  | 0, _, _, _ => []
  | room+1, r, c, b =>
    match b.enter c.offset with
    | (.error f, _) => [.refused r c f]
    | (.ok (), b) => .began r c :: ((r.plan s c).acts (Rule.apply s room) (Rule.acts s room) b ++
      (((r.plan s c).run (Rule.apply s room) b).map fun x => Act.ended r c x.1).toList)

/-- An application is refused, or its rule goes through its plan. -/
theorem Rule.acts_cases (s : Store) (room : Nat) (r : Rule) (c : Cursor) (b : Budget) :
    (∃ f b', b.enter c.offset = (.error f, b') ∧ r.acts s (room+1) c b = [.refused r c f] ∧
      r.apply s (room+1) c b = some (.error f, b')) ∨
    ∃ b₁, b.enter c.offset = (.ok (), b₁) ∧
      r.acts s (room+1) c b = .began r c ::
        ((r.plan s c).acts (Rule.apply s room) (Rule.acts s room) b₁ ++
        (((r.plan s c).run (Rule.apply s room) b₁).map fun x => Act.ended r c x.1).toList) ∧
      r.apply s (room+1) c b =
        ((r.plan s c).run (Rule.apply s room) b₁).map fun (step, b) => (step, b.close step) := by
  cases he : b.enter c.offset with
  | mk e b' =>
    cases e with
    | error f => exact .inl ⟨f, b', rfl, by rw [acts, he], by rw [apply, he]⟩
    | ok => exact .inr ⟨b', rfl, by rw [acts, he], by rw [apply, he]⟩

/-- Nothing happens before an application begins or is refused. -/
theorem Rule.acts_head {s : Store} {room : Nat} {r : Rule} {c : Cursor} {b : Budget} {a : Act}
    (h : a ∈ (r.acts s room c b).head?) : a = .began r c ∨ ∃ f, a = .refused r c f := by
  cases room with
  | zero => cases h
  | succ room =>
    rcases r.acts_cases s room c b with ⟨f, _, _, hacts, _⟩ | ⟨_, _, hacts, _⟩ <;> rw [hacts] at h
    · exact .inr ⟨f, (Option.some.inj h).symm⟩
    · exact .inl (Option.some.inj h).symm

/-- The last thing that happens in an application tells what it comes to. -/
theorem Rule.acts_last {s : Store} {room : Nat} {r : Rule} {c : Cursor}
    {b b' : Budget} {step : Step} (h : r.apply s room c b = some (step, b')) :
    ∃ a, (r.acts s room c b).getLast? = some a ∧ a.Settles r c step := by
  cases room with
  | zero => cases h
  | succ room =>
    rcases r.acts_cases s room c b with ⟨f, _, _, hacts, happly⟩ | ⟨b₁, _, hacts, happly⟩
    · obtain rfl := congrArg Prod.fst (Option.some.inj (happly.symm.trans h))
      exact ⟨_, by rw [hacts]; rfl, .refused f⟩
    · obtain ⟨⟨x, b₂⟩, hrun, hx⟩ := Option.map_eq_some_iff.1 (happly.symm.trans h)
      obtain rfl := congrArg Prod.fst hx
      rw [hacts, hrun]
      exact ⟨_, by simp [List.getLast?_cons, List.getLast?_append], .ended x⟩

/-- The last thing that happens in an application that fails is that it does. -/
theorem Rule.acts_failed {s : Store} {room : Nat} {r : Rule} {c : Cursor}
    {b b' : Budget} {f : Failure} (h : r.apply s room c b = some (.ok (.failure f), b')) :
    ∃ as, r.acts s room c b = as ++ [.ended r c (.ok (.failure f))] := by
  obtain ⟨a, hlast, hsettles⟩ := acts_last h
  cases hsettles
  exact List.getLast?_eq_some_iff.1 hlast

theorem Plan.acts_began {apply : Rule → Cursor → Budget → Applied}
    {acts : Rule → Cursor → Budget → List Act} {q : Rule} {d : Cursor} (p : Plan) {b : Budget}
    (h : .began q d ∈ p.acts apply acts b) :
    ∃ r c b', .began q d ∈ acts r c b' ∧ acts r c b' <:+: p.acts apply acts b := by
  induction p generalizing b with
  | done | observe => cases h
  | apply r c next ih =>
    rw [Plan.acts] at h ⊢
    rcases List.mem_append.1 h with h | h
    · exact ⟨r, c, b, h, (List.prefix_append _ _).isInfix⟩
    · split at h
      · rename_i o b₁ happly
        obtain ⟨r', c', b', hbegan, hwithin⟩ := ih o h
        exact ⟨r', c', b', hbegan, hwithin.trans (List.suffix_append _ _).isInfix⟩
      · cases h

/-- Where a rule begins, all that happens in its application follows. -/
theorem Rule.acts_began {s : Store} {room : Nat} {r q : Rule} {c d : Cursor} {b : Budget}
    (h : .began q d ∈ r.acts s room c b) :
    ∃ room' b', .began q d ∈ (q.acts s (room'+1) d b').head? ∧
      q.acts s (room'+1) d b' <:+: r.acts s room c b := by
  induction room generalizing r c b with
  | zero => cases h
  | succ room ih =>
    rcases r.acts_cases s room c b with ⟨f, _, _, hacts, _⟩ | ⟨b₁, _, hacts, _⟩
    · rw [hacts] at h
      cases List.mem_singleton.1 h
    · have hmem := h
      rw [hacts, List.mem_cons, List.mem_append] at hmem
      rcases hmem with hbegan | hmem | hmem
      · obtain ⟨rfl, rfl⟩ := Act.began.inj hbegan
        exact ⟨room, b, by rw [hacts]; rfl, List.infix_rfl⟩
      · obtain ⟨r', c', b', hbegan, hwithin⟩ := Plan.acts_began _ hmem
        obtain ⟨room', b'', hhead, hinner⟩ := ih hbegan
        refine ⟨room', b'', hhead, hinner.trans (hwithin.trans ?_)⟩
        rw [hacts]
        exact (List.prefix_append _ _).isInfix.trans (List.suffix_cons _ _).isInfix
      · obtain ⟨x, _, hx⟩ := Option.map_eq_some_iff.1 (Option.mem_toList.1 hmem)
        cases hx

/-- The budget between two points of a run: the steps that were taken and the failures that were
recorded. -/
structure Budget.Told (b : Budget) (as : List Act) (b' : Budget) : Prop where
  steps : b'.steps = b.steps+as.countP Act.isCharged
  furthest : b'.furthest = Failure.join b.furthest (Failure.furthest (Act.failures as))

namespace Budget

theorem told_nil (b : Budget) : b.Told [] b := ⟨rfl, (Failure.join_none_right _).symm⟩

theorem Told.append {b b' b'' : Budget} {as bs : List Act} (h : b.Told as b') (k : b'.Told bs b'') :
    b.Told (as ++ bs) b'' where
  steps := by rw [k.steps, h.steps, List.countP_append, Nat.add_assoc]
  furthest := by
    rw [k.furthest, h.furthest, Act.failures_append_acts, ← Failure.foldl_join,
      ← Failure.foldl_join, ← Failure.foldl_join, List.map_append, List.foldl_append]

theorem told_refused {b b' : Budget} {r : Rule} {c : Cursor} {f : Fault}
    (h : b.enter c.offset = (.error f, b')) : b.Told [.refused r c f] b' := by
  obtain ⟨⟨steps, rfl⟩, _⟩ := enter_error h
  have hsteps : steps = b.steps+(Act.isCharged (.refused r c f)).toNat :=
    (Entry.sound_refused h).steps_eq
  refine ⟨?_, (Failure.join_none_right _).symm⟩
  rw [List.countP_singleton]
  cases hcharged : (Act.refused r c f).isCharged <;> rw [hcharged] at hsteps <;> exact hsteps

theorem told_began {b b' : Budget} {r : Rule} {c : Cursor} (h : b.enter c.offset = (.ok (), b')) :
    b.Told [.began r c] b' := by
  obtain rfl := enter_ok h
  exact ⟨rfl, (Failure.join_none_right _).symm⟩

theorem told_ended (b : Budget) (r : Rule) (c : Cursor) (step : Step) :
    b.Told [.ended r c step] (b.close step) := by
  refine ⟨(b.close_frame step).2.2, ?_⟩
  match step with
  | .ok (.failure f) => exact furthest_record b f
  | .ok (.success m) => exact (Failure.join_none_right _).symm
  | .error f => exact (Failure.join_none_right _).symm

end Budget

/-- What holds across each act, from the account before it to the one behind it, and across acts in
a row. -/
structure Act.Tracks (T : Budget → List Act → Budget → Prop) : Prop where
  nil : ∀ b, T b [] b
  append : ∀ {b b' b'' as bs}, T b as b' → T b' bs b'' → T b (as ++ bs) b''
  refused : ∀ {b b' r c f}, b.enter c.offset = (.error f, b') → T b [.refused r c f] b'
  began : ∀ {b b' r c}, b.enter c.offset = (.ok (), b') → T b [.began r c] b'
  ended : ∀ b r c step, T b [.ended r c step] (b.close step)

theorem Plan.acts_tracked {T : Budget → List Act → Budget → Prop} (hT : Act.Tracks T)
    {apply : Rule → Cursor → Budget → Applied} {acts : Rule → Cursor → Budget → List Act}
    (h : ∀ r c b step b', apply r c b = some (step, b') → T b (acts r c b) b') (p : Plan)
    {b b' : Budget} {step : Step} (hp : p.run apply b = some (step, b')) :
    T b (p.acts apply acts b) b' := by
  induction p generalizing b with
  | done | observe =>
    obtain rfl := congrArg Prod.snd (Option.some.inj hp)
    exact hT.nil b
  | apply r c next ih =>
    rw [Plan.run] at hp
    rw [Plan.acts]
    split at hp
    · rename_i o b₁ ha
      rw [ha]
      exact hT.append (h r c b _ b₁ ha) (ih o hp)
    · rename_i f b₁ ha
      obtain rfl := congrArg Prod.snd (Option.some.inj hp)
      rw [ha, List.append_nil]
      exact h r c b _ b₁ ha
    · cases hp

section

variable {T : Budget → List Act → Budget → Prop} {s : Store} {room : Nat}
  {b b' : Budget} {step : Step}

/-- It then holds across all that happens in an application. -/
theorem Rule.acts_tracked (hT : Act.Tracks T) {r : Rule} {c : Cursor}
    (h : r.apply s room c b = some (step, b')) : T b (r.acts s room c b) b' := by
  induction room generalizing r c b step b' with
  | zero => cases h
  | succ room ih =>
    rcases r.acts_cases s room c b with ⟨f, b₁, he, hacts, happly⟩ | ⟨b₁, he, hacts, happly⟩
    · obtain rfl := congrArg Prod.snd (Option.some.inj (happly.symm.trans h))
      rw [hacts]
      exact hT.refused he
    · obtain ⟨⟨x, b₂⟩, hrun, hx⟩ := Option.map_eq_some_iff.1 (happly.symm.trans h)
      obtain rfl := congrArg Prod.snd hx
      have hplan := Plan.acts_tracked hT (fun _ _ _ _ _ => ih) _ hrun
      rw [hacts, hrun]
      exact hT.append (hT.began he) (hT.append hplan (hT.ended b₂ r c x))

theorem Plan.run_tracked (hT : Act.Tracks T) {p : Plan}
    (h : p.run (Rule.apply s room) b = some (step, b')) :
    T b (p.acts (Rule.apply s room) (Rule.acts s room) b) b' :=
  acts_tracked hT (fun _ _ _ _ _ => Rule.acts_tracked hT) p h

end

theorem Budget.tracks_told : Act.Tracks Budget.Told :=
  ⟨told_nil, Told.append, told_refused, told_began, told_ended⟩

/-- Nothing that an application does to the account is left untold. -/
theorem Rule.acts_told {s : Store} {room : Nat} {r : Rule} {c : Cursor}
    {b b' : Budget} {step : Step} (h : r.apply s room c b = some (step, b')) :
    b.Told (r.acts s room c b) b' := acts_tracked Budget.tracks_told h

namespace Budget

/-- What an act does to the account. -/
def undergo (b : Budget) : Act → Budget
  | .began _ c | .refused _ c _ => (b.enter c.offset).2
  | .ended _ _ step => b.close step

/-- The account behind what happens. -/
def behind (b : Budget) (as : List Act) : Budget := as.foldl undergo b

theorem behind_append (b : Budget) (as bs : List Act) :
    b.behind (as ++ bs) = (b.behind as).behind bs :=
  List.foldl_append

theorem tracks_behind : Act.Tracks fun b as b' => b' = b.behind as where
  nil _ := rfl
  append h k := by rw [behind_append, ← h, k]
  refused h := congrArg Prod.snd h.symm
  began h := congrArg Prod.snd h.symm
  ended _ _ _ _ := rfl

end Budget

/-- What happens in a plan happens in the application of one of its rules, on the account as it is
by then. -/
theorem Plan.acts_inside {rules : List Rule} {apply : Rule → Cursor → Budget → Applied}
    {acts : Rule → Cursor → Budget → List Act}
    (h : ∀ r c b step b', apply r c b = some (step, b') → b' = b.behind (acts r c b)) {p : Plan}
    {es : List Event}
    (hp : p.Meets (among rules) (fun _ _ => True) es) {b : Budget} {as bs : List Act} {a : Act}
    (hsplit : p.acts apply acts b = as ++ a :: bs) :
    ∃ r ∈ rules, ∃ c lead as' bs', as = lead ++ as' ∧
      acts r c (b.behind lead) = as' ++ a :: bs' := by
  induction p generalizing es b as with
  | done | observe => exact absurd hsplit.symm (by simp [Plan.acts])
  | apply r c next ih =>
    obtain ⟨hr, _, hok⟩ := hp
    rw [Plan.acts] at hsplit
    rcases Act.append_split hsplit with ⟨bs', hfirst, _⟩ | ⟨as', rfl, hrest⟩
    · exact ⟨r, hr, c, [], as, bs', rfl, hfirst⟩
    · split at hrest
      · rename_i o b₁ ha
        obtain ⟨q, hq, d, lead, as'', bs', rfl, hinner⟩ := ih o (hok [] o trivial) hrest
        refine ⟨q, hq, d, acts r c b ++ lead, as'', bs', (List.append_assoc ..).symm, ?_⟩
        rw [Budget.behind_append, ← h r c b _ b₁ ha]
        exact hinner
      · exact absurd hrest.symm (by simp)

/-- What ends in an application is the rule itself, behind its plan, or something in its plan. -/
theorem Rule.acts_ended_cases {s : Store} {room : Nat} {r q : Rule} {c d : Cursor}
    {b : Budget} {step : Step} {as bs : List Act}
    (h : r.acts s (room+1) c b = as ++ .ended q d step :: bs) :
    ∃ as', as = .began r c :: as' ∧
      ((∃ bs', (r.plan s c).acts (Rule.apply s room) (Rule.acts s room) (b.behind [.began r c]) =
          as' ++ .ended q d step :: bs') ∨
        q = r ∧ d = c ∧ as' = (r.plan s c).acts (Rule.apply s room) (Rule.acts s room)
          (b.behind [.began r c]) ∧
          (r.plan s c).run (Rule.apply s room) (b.behind [.began r c]) =
            some (step, b.behind as)) := by
  rcases r.acts_cases s room c b with ⟨f, _, _, hacts, _⟩ | ⟨b₁, he, hacts, _⟩ <;> rw [hacts] at h
  · have hmem : .ended q d step ∈ [Act.refused r c f] := by
      rw [h]
      exact List.mem_append_right as List.mem_cons_self
    cases List.mem_singleton.1 hmem
  · have hbegan : b.behind [.began r c] = b₁ := congrArg Prod.snd he
    rw [hbegan]
    cases as with
    | nil => cases h
    | cons a as =>
      obtain ⟨rfl, hrest⟩ := List.cons.inj h
      refine ⟨as, rfl, ?_⟩
      rcases Act.append_split hrest with ⟨bs', hplan, _⟩ | ⟨as', rfl, hend⟩
      · exact .inl ⟨bs', hplan⟩
      · cases hrun : (r.plan s c).run (Rule.apply s room) b₁ with
        | none =>
          rw [hrun] at hend
          exact absurd hend.symm (by simp)
        | some x =>
          -- Behind its plan nothing happens in an application but its end.
          rw [hrun] at hend
          cases as' with
          | cons e as' => exact absurd (List.cons.inj hend).2.symm (by simp)
          | nil =>
            obtain ⟨rfl, rfl, rfl⟩ := Act.ended.inj (List.cons.inj hend).1
            have hbehind := Plan.run_tracked Budget.tracks_behind hrun
            rw [List.append_nil, ← List.singleton_append, Budget.behind_append, hbegan, ← hbehind]
            exact .inr ⟨rfl, rfl, rfl, rfl⟩

/-- Where an application ends, its plan has been run since it began, and has led the account to
where it is. -/
theorem Rule.Composed.acts_ended {s : Store} (hs : s.Composed) {r : Rule} (hr : r.Composed)
    {room : Nat} {c d : Cursor} {b : Budget} {q : Rule} {step : Step} {as bs : List Act}
    (h : r.acts s room c b = as ++ .ended q d step :: bs) :
    q.Composed ∧ ∃ room' lead b₁,
      as = lead ++ .began q d :: (q.plan s d).acts (Rule.apply s room') (Rule.acts s room') b₁ ∧
      (q.plan s d).run (Rule.apply s room') b₁ = some (step, b.behind as) := by
  induction room generalizing r c b as bs with
  | zero => exact absurd h.symm (by simp [Rule.acts])
  | succ room ih =>
    obtain ⟨as', rfl, ⟨_, hplan⟩ | ⟨rfl, rfl, rfl, hrun⟩⟩ := acts_ended_cases h
    · obtain ⟨r', hr', c', lead, as', _, rfl, hinner⟩ :=
        Plan.acts_inside (fun _ _ _ _ _ => Rule.acts_tracked Budget.tracks_behind)
          (hr.plan_among c []) hplan
      obtain ⟨hq, room', lead', b₂, rfl, hrun⟩ := ih (hr.callee hs hr') hinner
      refine ⟨hq, room', .began r c :: (lead ++ lead'), b₂, by simp, ?_⟩
      rw [← List.singleton_append, Budget.behind_append, Budget.behind_append]
      exact hrun
    · exact ⟨hr, room, [], _, rfl, hrun⟩

/-- A contract that the applications keep on the account of a run leads the plan to its end there as
well. -/
theorem Plan.acts_meets {k : Contract} {goal : List Event → Step → Prop} {s : Store} {room : Nat}
    (h : ∀ r c b step b', k.pre r c → r.apply s room c b = some (step, b') →
      k.post r c (Act.events (r.acts s room c b)) step)
    {p : Plan} {es : List Event} (hp : p.Meets k goal es) {b b' : Budget} {step : Step}
    (hrun : p.run (Rule.apply s room) b = some (step, b')) :
    goal (es ++ Act.events (p.acts (Rule.apply s room) (Rule.acts s room) b)) step := by
  induction p generalizing es b with
  | done =>
    obtain rfl := congrArg Prod.fst (Option.some.inj hrun)
    rw [Plan.acts, Act.events, List.filterMap_nil, List.append_nil]
    exact hp
  | observe => exact hp.elim
  | apply r c next ih =>
    obtain ⟨hpre, herror, hok⟩ := hp
    rw [Plan.run] at hrun
    rw [Plan.acts]
    split at hrun
    · rename_i o b₁ ha
      rw [ha, Act.events_append, ← List.append_assoc]
      exact ih o (hok _ o (h r c b _ b₁ hpre ha)) hrun
    · rename_i f b₁ ha
      obtain rfl := congrArg Prod.fst (Option.some.inj hrun)
      rw [ha, List.append_nil]
      exact herror _ f (h r c b _ b₁ hpre ha)
    · cases hrun

end Descent
