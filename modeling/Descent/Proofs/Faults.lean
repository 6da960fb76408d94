import Descent.Proofs.Acts
import Descent.Proofs.Offsets
import Descent.Proofs.Room

namespace Descent

/-- The name that a late-bound rule is missing, if it is bound to nothing. -/
def Rule.unbound? (s : Store) : Rule → Option String
  | .handle c | .recursive c => if (s.cell? c).isNone then some Plan.recursiveName else none
  | .reference g name => if (s.bound? g name).isNone then some name else none
  | _ => none

/-- What a rule with a transform comes to at `c`, from what the rule inside comes to. -/
def Step.transformed (t : Value → Except String Value) (c : Cursor) : Step → Step
  | .ok (.success m) => match t m.value with
    | .ok v => .ok (.success { m with value := v })
    | .error e => .error ⟨.transform e, c.offset⟩
  | step => step

theorem Budget.enter_refuses {b b' : Budget} {offset : Nat} {f : Fault}
    (h : b.enter offset = (.error f, b')) : b.limits.Refuses (b.steps+1) (b.depth+1) offset f := by
  rcases enter_cases b offset with ⟨_, he⟩ | ⟨g, _, hg, he, _⟩
  · cases h.symm.trans he
  · obtain rfl := Except.error.inj (congrArg Prod.fst (h.symm.trans he))
    exact hg

namespace Act

/-- What is right before the end of a rule with a transform is the end of the rule inside; the
transform is all that is left to do. -/
def Precedes (a a' : Act) : Prop :=
  ∀ q t c step, a' = .ended (.mapped q t) c step →
    ∃ inner, a.Settles q c inner ∧ step = inner.transformed t c

/-- Behind all of `as`, this is where a fault comes from. -/
inductive Raises (s : Store) : List Act → Act → Fault → Prop
  | refused (as : List Act) (r : Rule) {c : Cursor} {f : Fault} (h : Step.Refused (.error f))
    (ho : f.offset = c.offset) : Raises s as (.refused r c f) f
  | transform (as : List Act) {q : Rule} {t : Value → Except String Value} {c : Cursor}
    {m : Match} {e : String}
    (h : t m.value = .error e) : Raises s (as ++ [.ended q c (.ok (.success m))])
      (.ended (.mapped q t) c (.error ⟨.transform e, c.offset⟩)) ⟨.transform e, c.offset⟩
  | unbound (as : List Act) {r : Rule} {c : Cursor} {name : String} (h : r.unbound? s = some name) :
    Raises s (as ++ [.began r c]) (.ended r c (.error ⟨.unbound name, c.offset⟩))
      ⟨.unbound name, c.offset⟩

/-- Nothing among it is refused or ends with a fault. -/
def Faultless (as : List Act) : Prop := ∀ a ∈ as, a.fault? = none

/-- A fault is raised, and all that happens from then on is that applications end with it. -/
def Aborted (s : Store) (as : List Act) (f : Fault) : Prop :=
  ∃ es a fs, as = es ++ a :: fs ∧ Faultless es ∧ Raises s es a f ∧
    ∀ a' ∈ fs, ∃ r c, a' = .ended r c (.error f)

variable {s : Store} {as bs : List Act} {a : Act} {f : Fault}

theorem chain_began {r : Rule} {c : Cursor} (h : as.IsChain Precedes)
    (hhead : ∀ a ∈ as.head?, ∀ q t d step, a ≠ .ended (.mapped q t) d step) :
    (Act.began r c :: as).IsChain Precedes :=
  List.isChain_cons.2 ⟨fun a ha q t d step hended => absurd hended (hhead a ha q t d step), h⟩

theorem chain_ended {x : Applied} {r : Rule} {c : Cursor} (h : as.IsChain Precedes)
    (hlast : ∀ step b, x = some (step, b) → ∀ a ∈ as.getLast?, a.Precedes (.ended r c step)) :
    (as ++ (x.map fun x => Act.ended r c x.1).toList).IsChain Precedes := by
  cases x with
  | none => exact (List.append_nil as).symm ▸ h
  | some x =>
    refine List.isChain_append.2 ⟨h, .singleton _, fun a ha a' ha' => ?_⟩
    obtain rfl := Option.some.inj ha'
    exact hlast x.1 x.2 rfl a ha

theorem Raises.fault? (h : Raises s as a f) : a.fault? = some f := by
  cases h <;> rfl

theorem Raises.behind (h : Raises s as a f) (bs : List Act) : Raises s (bs ++ as) a f := by
  cases h with
  | refused _ r h ho => exact .refused _ r h ho
  | transform as h =>
    rw [← List.append_assoc]
    exact .transform _ h
  | unbound as h =>
    rw [← List.append_assoc]
    exact .unbound _ h

theorem Faultless.append (h : Faultless as) (k : Faultless bs) : Faultless (as ++ bs) := by
  intro a ha
  exact (List.mem_append.1 ha).elim (h a) (k a)

theorem Faultless.aborted (h : Faultless as) (k : Aborted s bs f) : Aborted s (as ++ bs) f := by
  obtain ⟨es, a, fs, rfl, hes, ha, hfs⟩ := k
  exact ⟨as ++ es, a, fs, (List.append_assoc as es _).symm, h.append hes, ha.behind as, hfs⟩

theorem Aborted.ended (h : Aborted s as f) (r : Rule) (c : Cursor) :
    Aborted s (as ++ [.ended r c (.error f)]) f := by
  obtain ⟨es, a, fs, rfl, hes, ha, hfs⟩ := h
  refine ⟨es, a, fs ++ [.ended r c (.error f)], by simp, hes, ha, fun a' ha' => ?_⟩
  rcases List.mem_append.1 ha' with ha' | ha'
  · exact hfs a' ha'
  · exact ⟨r, c, List.mem_singleton.1 ha'⟩

/-- Every fault among what happens is the one that was raised first. -/
theorem Aborted.split (h : Aborted s as f) {es fs : List Act} {g : Fault} (has : as = es ++ a :: fs)
    (ha : a.fault? = some g) : g = f ∧ ∀ a' ∈ fs, ∃ r c, a' = .ended r c (.error f) := by
  obtain ⟨es', a', fs', hsplit, hes', hraises, hfs'⟩ := h
  have hhere (h : a :: fs = a' :: fs') : g = f ∧ ∀ a' ∈ fs, ∃ r c, a' = .ended r c (.error f) := by
    obtain ⟨rfl, rfl⟩ := List.cons.inj h
    exact ⟨Option.some.inj (ha.symm.trans hraises.fault?), hfs'⟩
  rcases List.append_eq_append_iff.1 (has.symm.trans hsplit) with ⟨ks, rfl, hks⟩ | ⟨ks, rfl, hks⟩
  · cases ks with
    | nil => exact hhere hks
    | cons k ks =>
      -- What comes before the fault that was raised first is none.
      obtain ⟨rfl, rfl⟩ := List.cons.inj hks
      have hnone := hes' a (by simp)
      rw [ha] at hnone
      cases hnone
  · cases ks with
    | nil => exact hhere hks.symm
    | cons k ks =>
      obtain ⟨rfl, rfl⟩ := List.cons.inj hks
      obtain ⟨r, c, rfl⟩ := hfs' a (by simp)
      exact ⟨(Option.some.inj ha).symm, fun a'' ha'' => hfs' a'' (by simp [ha''])⟩

/-- What happens in an application tells whether it ends with a fault. -/
def Tells (s : Store) (as : List Act) : Applied → Prop
  | some (.error f, _) => Aborted s as f
  | _ => Faultless as

theorem Tells.began {x : Applied} (h : Tells s as x) (r : Rule) (c : Cursor) :
    Tells s (.began r c :: as) x := by
  have hbegan : Faultless [.began r c] := fun a ha => List.mem_singleton.1 ha ▸ rfl
  match x with
  | some (.error f, _) => exact hbegan.aborted h
  | some (.ok o, _) | none => exact hbegan.append h

theorem Tells.ended {x : Applied} (h : Tells s as x) (r : Rule) (c : Cursor) :
    Tells s (as ++ (x.map fun x => Act.ended r c x.1).toList) x := by
  match x with
  | some (.error f, _) => exact Aborted.ended h r c
  | some (.ok o, _) => exact h.append fun a ha => List.mem_singleton.1 ha ▸ rfl
  | none => exact h.append fun a ha => absurd ha List.not_mem_nil

/-- A transform that refuses is the first to raise a fault, since the rule inside has raised
none. -/
theorem Tells.transformed {x : Applied} (h : Tells s as x) (q : Rule)
    (t : Value → Except String Value) (c : Cursor)
    (hlast : ∀ step b, x = some (step, b) → ∃ a, as.getLast? = some a ∧ a.Settles q c step) :
    Tells s (as ++ ((x.map fun (step, b) => (step.transformed t c, b)).map fun x =>
      Act.ended (.mapped q t) c x.1).toList)
    (x.map fun (step, b) => (step.transformed t c, b)) := by
  match x with
  | none | some (.error _, _) | some (.ok (.failure _), _) => exact Tells.ended h (.mapped q t) c
  | some (.ok (.success m), b) =>
    obtain ⟨a, ha, hsettles⟩ := hlast _ b rfl
    obtain ⟨es, rfl⟩ := List.getLast?_eq_some_iff.1 ha
    simp only [Option.map_some, Step.transformed]
    cases ht : t m.value with
    | ok v => exact h.append fun a ha => List.mem_singleton.1 ha ▸ rfl
    | error e =>
      cases hsettles
      exact ⟨_, _, [], rfl, h, .transform es ht, fun a ha => absurd ha List.not_mem_nil⟩

theorem Tells.aborted {x : Applied} (h : Tells s as x) (ha : a ∈ as) (hf : a.fault? = some f) :
    ∃ g b, x = some (.error g, b) ∧ Aborted s as g := by
  match x with
  | some (.error g, b) => exact ⟨g, b, rfl, h⟩
  | some (.ok _, _) | none =>
    have hnone := h a ha
    rw [hf] at hnone
    cases hnone

theorem tells_close {x : Applied} (h : Tells s as x) :
    Tells s as (x.map fun (step, b) => (step, b.close step)) := by
  match x with
  | some (.error f, _) | some (.ok o, _) | none => exact h

end Act

namespace Plan

/-- The plan itself raises no fault. -/
def Quiet : Plan → Prop
  | .done step => ∀ f, step ≠ .error f
  | .observe _ => False
  | .apply _ _ next => ∀ o, (next o).Quiet

theorem quiet_ok (o : Outcome) : (done (.ok o)).Quiet := fun _ h => by cases h

theorem quiet_apply {r : Rule} {c : Cursor} {next : Outcome → Plan}
    (hhit : ∀ m, (next (.success m)).Quiet) (hmiss : ∀ f, (next (.failure f)).Quiet) :
    (apply r c next).Quiet := by
  intro o
  cases o with
  | success m => exact hhit m
  | failure f => exact hmiss f

theorem quiet_require {r : Rule} {c : Cursor} {next : Match → Plan} (h : ∀ m, (next m).Quiet) :
    (require r c next).Quiet := quiet_apply h fun _ => quiet_ok _

theorem choice_quiet (c : Cursor) (f : Failure) (rs : List Rule) : (choice c f rs).Quiet := by
  induction rs generalizing f with
  | nil => exact quiet_ok _
  | cons r rs ih => exact quiet_apply (fun _ => quiet_ok _) fun g => ih (f.adopt g)

theorem sequence_quiet (start : Cursor) (values : List Value) (c : Cursor) (rs : List Rule) :
    (sequence start values c rs).Quiet := by
  induction rs generalizing values c with
  | nil => exact quiet_ok _
  | cons r rs ih => exact quiet_require fun m => ih (m.value.collect values) m.rest

theorem repeated_quiet (r : Rule) (start : Cursor) (turns : Nat) (values : List Value)
    (c : Cursor) : (repeated r start turns values c).Quiet := by
  induction turns generalizing values c with
  | zero => exact quiet_apply (fun _ => quiet_ok _) fun _ => quiet_ok _
  | succ turns ih =>
    refine quiet_apply (fun m => ?_) fun _ => quiet_ok _
    dsimp only
    split
    · exact quiet_ok _
    · exact ih _ _

theorem round_quiet (r delimiter : Rule) (trailing : Bool) (start : Cursor)
    {next : List Value → Cursor → Plan} (h : ∀ values d, (next values d).Quiet)
    (values : List Value) (c : Cursor) :
    (round r delimiter trailing start next values c).Quiet := by
  refine quiet_apply (fun d => quiet_apply (fun m => ?_) fun _ => quiet_ok _) fun _ => quiet_ok _
  dsimp only
  split
  · exact quiet_ok _
  · exact h _ _

theorem elements_quiet (r delimiter : Rule) (trailing : Bool) (start : Cursor) (turns : Nat)
    (values : List Value) (c : Cursor) :
    (elements r delimiter trailing start turns values c).Quiet := by
  induction turns generalizing values c with
  | zero => exact round_quiet r delimiter trailing start (fun _ _ => quiet_ok _) values c
  | succ turns ih => exact round_quiet r delimiter trailing start ih values c

theorem forward_quiet (r : Rule) (c : Cursor) : (forward r c).Quiet := fun o => quiet_ok o

variable {s : Store} {rules : List Rule} {p : Plan} {es : List Event} {b : Budget}

theorem quiet_tells {apply : Rule → Cursor → Budget → Applied}
    {acts : Rule → Cursor → Budget → List Act}
    (h : ∀ r ∈ rules, ∀ c b, Act.Tells s (acts r c b) (apply r c b))
    (hp : p.Meets (among rules) (fun _ _ => True) es) (hq : p.Quiet) (b : Budget) :
    Act.Tells s (p.acts apply acts b) (p.run apply b) := by
  induction p generalizing es b with
  | done step =>
    match step with
    | .ok o => exact fun a ha => absurd ha List.not_mem_nil
    | .error f => exact absurd rfl (hq f)
  | observe => exact hq.elim
  | apply r c next ih =>
    obtain ⟨hr, _, hok⟩ := hp
    have hr := h r hr c b
    rw [Plan.acts, Plan.run]
    cases ha : apply r c b with
    | none =>
      rw [ha] at hr
      exact (List.append_nil (acts r c b)).symm ▸ hr
    | some x =>
      rw [ha] at hr
      obtain ⟨step, b'⟩ := x
      cases step with
      | error f => exact (List.append_nil (acts r c b)).symm ▸ hr
      | ok o =>
        have hnext := ih o (hok [] o trivial) (hq o) b'
        dsimp only
        cases hrun : (next o).run apply b' with
        | none =>
          rw [hrun] at hnext
          exact Act.Faultless.append hr hnext
        | some y =>
          obtain ⟨step, b''⟩ := y
          rw [hrun] at hnext
          cases step with
          | ok => exact Act.Faultless.append hr hnext
          | error => exact Act.Faultless.aborted hr hnext

variable {room : Nat}

theorem acts_head {a : Act} (h : a ∈ (p.acts (Rule.apply s room) (Rule.acts s room) b).head?)
    (r : Rule) (c : Cursor) (step : Step) : a ≠ .ended r c step := by
  cases p with
  | done | observe => cases h
  | apply q d next =>
    rw [Plan.acts, List.head?_append] at h
    cases hhead : (q.acts s room d b).head? with
    | some a' =>
      rw [hhead] at h
      obtain rfl := Option.some.inj h
      intro hended
      rcases Rule.acts_head hhead with rfl | ⟨f, rfl⟩ <;> cases hended
    | none =>
      -- Nothing happens where there is no room, and then the application comes to nothing.
      cases room with
      | zero =>
        rw [hhead, Rule.apply] at h
        cases h
      | succ room =>
        rcases q.acts_cases s room d b with ⟨_, _, _, hacts, _⟩ | ⟨_, _, hacts, _⟩ <;>
          rw [hacts] at hhead <;> cases hhead

theorem acts_chain (h : ∀ r ∈ rules, ∀ c b, (r.acts s room c b).IsChain Act.Precedes)
    (hp : p.Meets (among rules) (fun _ _ => True) es) (b : Budget) :
    (p.acts (Rule.apply s room) (Rule.acts s room) b).IsChain Act.Precedes := by
  induction p generalizing es b with
  | done | observe => exact .nil
  | apply r c next ih =>
    obtain ⟨hr, _, hok⟩ := hp
    rw [Plan.acts]
    split
    · rename_i o b₁ happly
      refine List.isChain_append.2 ⟨h r hr c b, ih o (hok [] o trivial) b₁, fun a _ a' ha' => ?_⟩
      exact fun q t d step hended => absurd hended (acts_head ha' _ d step)
    · rw [List.append_nil]
      exact h r hr c b

end Plan

namespace Rule

variable {s : Store} {r : Rule} {room : Nat} {c : Cursor} {b : Budget}

theorem plan_unbound {name : String} (h : r.unbound? s = some name) (c : Cursor) :
    r.plan s c = .fault c (.unbound name) := by
  cases r with
  | handle cell | recursive cell =>
    obtain ⟨hnone, hname⟩ := Option.ite_none_right_eq_some.1 h
    obtain rfl := Option.some.inj hname
    rw [plan, Option.isNone_iff_eq_none.1 hnone]
    rfl
  | reference g n =>
    obtain ⟨hnone, hname⟩ := Option.ite_none_right_eq_some.1 h
    obtain rfl := Option.some.inj hname
    rw [plan, Option.isNone_iff_eq_none.1 hnone]
    rfl
  | _ => cases h

/-- Faults come from transforms and from rules that are bound to nothing. -/
theorem Composed.plan_quiet (hr : r.Composed) : (∃ q t, r = .mapped q t ∧ q.Composed) ∨
    (∃ name, r.unbound? s = some name) ∨
    (∀ q t, r ≠ .mapped q t) ∧ ∀ c, (r.plan s c).Quiet := by
  have hbound (found : Option Rule) (name : String) :
      (∃ n, (if found.isNone then some name else none) = some n) ∨
      ∀ c, (Plan.bound found name c).Quiet := by
    cases found with
    | none => exact .inl ⟨name, rfl⟩
    | some q => exact .inr fun c => Plan.forward_quiet q c
  cases hr with
  | mapped h t => exact .inl ⟨_, t, rfl, h⟩
  | handle cell | recursive cell =>
    exact .inr ((hbound (s.cell? cell) Plan.recursiveName).imp id fun h => ⟨by simp, h⟩)
  | reference g name => exact .inr ((hbound (s.bound? g name) name).imp id fun h => ⟨by simp, h⟩)
  | token p =>
    refine .inr (.inr ⟨by simp, fun c => ?_⟩)
    simp only [plan, Plan.token]
    split <;> exact Plan.quiet_ok _
  | choice => exact .inr (.inr ⟨by simp, fun c => Plan.choice_quiet c _ _⟩)
  | sequence => exact .inr (.inr ⟨by simp, fun c => Plan.sequence_quiet c _ _ _⟩)
  | repeated => exact .inr (.inr ⟨by simp, fun c => Plan.repeated_quiet _ c _ _ _⟩)
  | separated =>
    exact .inr (.inr ⟨by simp, fun c => Plan.quiet_require fun m =>
      Plan.elements_quiet _ _ _ c _ _ _⟩)
  | enclosed | pair =>
    exact .inr (.inr ⟨by simp, fun c => Plan.quiet_require fun _ => Plan.quiet_require fun _ =>
      Plan.quiet_require fun _ => Plan.quiet_ok _⟩)
  | discard => exact .inr (.inr ⟨by simp, fun c => Plan.quiet_require fun _ => Plan.quiet_ok _⟩)
  | optional =>
    exact .inr (.inr ⟨by simp, fun c => Plan.quiet_apply (fun _ => Plan.quiet_ok _) fun _ =>
      Plan.quiet_ok _⟩)
  | label =>
    refine .inr (.inr ⟨by simp, fun c => Plan.quiet_apply (fun _ => Plan.quiet_ok _) fun f => ?_⟩)
    dsimp only
    split <;> exact Plan.quiet_ok _
  | endOfInput =>
    refine .inr (.inr ⟨by simp, fun c => ?_⟩)
    simp only [plan, Plan.endOfInput]
    split <;> exact Plan.quiet_ok _
  | registered => exact .inr (.inr ⟨by simp, fun c => Plan.forward_quiet _ c⟩)

theorem mapped_acts (q : Rule) (t : Value → Except String Value) :
    ((mapped q t).plan s c).acts (apply s room) (acts s room) b = q.acts s room c b := by
  rw [plan, Plan.mapped, Plan.require, Plan.acts]
  split
  · rename_i o _ _
    cases o with
    | success m =>
      dsimp only
      split <;> exact List.append_nil _
    | failure => exact List.append_nil _
  · exact List.append_nil _

theorem Composed.mapped_run {q : Rule} (hs : s.Composed) (hq : q.Composed)
    (t : Value → Except String Value) : ((Rule.mapped q t).plan s c).run (apply s room) b =
      (q.apply s room c b).map fun (step, b) => (step.transformed t c, b) := by
  rw [plan, Plan.mapped, Plan.require, Plan.run]
  cases ha : q.apply s room c b with
  | none => rfl
  | some x =>
    obtain ⟨step, b'⟩ := x
    cases step with
    | error => rfl
    | ok o =>
      cases o with
      | failure => rfl
      | success m =>
        -- A match begins where its rule was applied.
        have hspan : m.span.start = c.offset := congrArg Span.start (hq.apply_within hs ha).1
        simp only [Option.map_some, Step.transformed]
        cases ht : t m.value with
        | ok => rfl
        | error => simp only [Plan.run, hspan]

/-- A fault aborts all applications that are open, and one that ends with no fault has met none. -/
theorem Composed.acts_tells (hs : s.Composed) (hr : r.Composed) (room : Nat) (c : Cursor)
    (b : Budget) : Act.Tells s (r.acts s room c b) (r.apply s room c b) := by
  induction room generalizing r c b with
  | zero => exact fun a ha => absurd ha List.not_mem_nil
  | succ room ih =>
    rcases r.acts_cases s room c b with ⟨f, b₁, he, hacts, happly⟩ | ⟨b₁, he, hacts, happly⟩ <;>
      rw [hacts, happly]
    · have hf := Budget.enter_refuses he
      exact ⟨[], _, [], rfl, fun a ha => absurd ha List.not_mem_nil,
        .refused [] r hf.refused hf.offset_eq, fun a ha => absurd ha List.not_mem_nil⟩
    · refine Act.tells_close ?_
      rcases hr.plan_quiet (s := s) with ⟨q, t, rfl, hq⟩ | ⟨name, hname⟩ | ⟨_, hquiet⟩
      · rw [mapped_acts, hq.mapped_run hs]
        exact ((ih hq c b₁).transformed q t c fun step b' h => acts_last h).began _ c
      · rw [plan_unbound hname]
        have hbegan : Act.Faultless [.began r c] := fun a ha => List.mem_singleton.1 ha ▸ rfl
        exact ⟨[.began r c], _, [], rfl, hbegan, .unbound [] hname,
          fun a ha => absurd ha List.not_mem_nil⟩
      · have hplan := Plan.quiet_tells (fun q hq c b => ih (hr.callee hs hq) c b)
            (hr.plan_among c []) (hquiet c) b₁
        exact (hplan.ended r c).began r c

/-- Behind the end of the rule inside, the transform is all that is left to do. -/
theorem Composed.mapped_chain {q : Rule} (hs : s.Composed) (hq : q.Composed)
    (t : Value → Except String Value) (h : (q.acts s room c b).IsChain Act.Precedes) :
    (.began (.mapped q t) c ::
      (((Rule.mapped q t).plan s c).acts (apply s room) (Rule.acts s room) b ++
      ((((Rule.mapped q t).plan s c).run (apply s room) b).map fun x =>
        Act.ended (.mapped q t) c x.1).toList)).IsChain Act.Precedes := by
  rw [mapped_acts, hq.mapped_run hs]
  cases ha : q.apply s room c b with
  | none =>
    rw [Option.map_none, Option.map_none, Option.toList_none, List.append_nil]
    refine Act.chain_began h fun a hhead q' t' d step hended => ?_
    subst hended
    rcases acts_head hhead with h | ⟨f, h⟩ <;> cases h
  | some x =>
    obtain ⟨inner, b'⟩ := x
    obtain ⟨a, hlast, hsettles⟩ := acts_last ha
    refine Act.chain_began (Act.chain_ended h fun step b'' hx a' hlast' => ?_)
      fun a' hhead q' t' d step hended => ?_
    · obtain rfl := Option.some.inj (hlast.symm.trans hlast')
      obtain rfl := congrArg Prod.fst (Option.some.inj hx)
      intro q' t' d step' hended
      obtain ⟨hq', rfl, rfl⟩ := Act.ended.inj hended
      obtain ⟨rfl, rfl⟩ := Rule.mapped.inj hq'
      exact ⟨inner, hsettles, rfl⟩
    · subst hended
      have hne : q.acts s room c b ≠ [] := by
        intro hnil
        rw [hnil] at hlast
        cases hlast
      rw [List.head?_append_of_ne_nil _ hne] at hhead
      rcases acts_head hhead with h | ⟨f, h⟩ <;> cases h

/-- What is right behind another thing comes of it. -/
theorem Composed.acts_chain (hs : s.Composed) (hr : r.Composed) (room : Nat) (c : Cursor)
    (b : Budget) : (r.acts s room c b).IsChain Act.Precedes := by
  induction room generalizing r c b with
  | zero => exact .nil
  | succ room ih =>
    rcases r.acts_cases s room c b with ⟨f, b₁, he, hacts, -⟩ | ⟨b₁, he, hacts, -⟩ <;> rw [hacts]
    · exact .singleton _
    · rcases hr.plan_quiet (s := s) with ⟨q, t, rfl, hq⟩ | ⟨name, hname⟩ | ⟨hmapped, _⟩
      · exact hq.mapped_chain hs t (ih hq c b₁)
      · rw [plan_unbound hname]
        refine List.isChain_pair.2 fun q t d step h => ?_
        obtain ⟨rfl, _, _⟩ := Act.ended.inj h
        cases hname
      · have hplan :=
          Plan.acts_chain (fun q hq c b => ih (hr.callee hs hq) c b) (hr.plan_among c []) b₁
        refine Act.chain_began (Act.chain_ended hplan fun step b₂ _ a _ => ?_)
          fun a hhead q t d step hended => ?_
        · exact fun q t d step' hended => absurd (Act.ended.inj hended).1 (hmapped q t)
        · subst hended
          rw [List.head?_append, Option.mem_def, Option.or_eq_some_iff] at hhead
          rcases hhead with hhead | ⟨_, hhead⟩
          · exact Plan.acts_head hhead _ d step rfl
          · obtain ⟨x, _, hx⟩ :=
              Option.map_eq_some_iff.1 (Option.mem_toList.1 (List.mem_of_mem_head? hhead))
            exact hmapped q t (Act.ended.inj hx).1

/-- All that happens in parsing a text with the rule, as far as the room for nesting lets it. -/
def runActs (s : Store) (r : Rule) (text : List Char) (l : Limits) (room : Nat) : List Act :=
  r.acts s room (.start text) (.fresh l)

/-- A rule that is bound to nothing raises a fault where it begins. -/
theorem acts_unbound {q : Rule} {d : Cursor} {name : String} (h : .began q d ∈ r.acts s room c b)
    (hname : q.unbound? s = some name) :
    [.began q d, .ended q d (.error ⟨.unbound name, d.offset⟩)] <:+: r.acts s room c b := by
  obtain ⟨room', b', hhead, hwithin⟩ := acts_began h
  rcases q.acts_cases s room' d b' with ⟨f, _, _, hacts, _⟩ | ⟨b₁, _, hacts, _⟩
  · rw [hacts] at hhead
    cases Option.some.inj hhead
  · rw [hacts, plan_unbound hname] at hwithin
    exact hwithin

/-- A transform that refuses raises a fault. -/
theorem acts_refuses {q : Rule} {t : Value → Except String Value} {m : Match} {e : String}
    {step : Step} {d : Cursor} {as : List Act} (hchain : as.IsChain Act.Precedes)
    (h : [.ended q d (.ok (.success m)), .ended (.mapped q t) d step] <:+: as)
    (ht : t m.value = .error e) :
    step = .error ⟨.transform e, d.offset⟩ := by
  have hpair := List.isChain_pair.1 <| List.IsChain.infix hchain h
  obtain ⟨inner, hsettles, hstep⟩ := hpair q t d step rfl
  cases hsettles
  rw [hstep, Step.transformed, ht]

/-- What a fault leaves of a run. -/
theorem Composed.run_aborted (hs : s.Composed) (hr : r.Composed) {text : List Char}
    {l : Limits} {room : Nat} {es fs : List Act} {a : Act} {f : Fault}
    (h : r.runActs s text l room = es ++ a :: fs) (ha : a.fault? = some f) :
    (∀ a' ∈ fs, ∃ q d, a' = .ended q d (.error f)) ∧
    ∃ b, r.run s text l = some (.error f, b) ∧ b.steps = (es ++ [a]).countP Act.isCharged ∧
      b.furthest = Failure.furthest (Act.failures es) := by
  have hmem : a ∈ r.runActs s text l room := by
    rw [h]
    exact List.mem_append_right es List.mem_cons_self
  obtain ⟨g, b, happly, haborted⟩ :=
    (hr.acts_tells hs room (.start text) (.fresh l)).aborted hmem ha
  obtain ⟨rfl, hfs⟩ := haborted.split h ha
  have htold := acts_told happly
  rw [show r.acts s room (.start text) (.fresh l) = es ++ a :: fs from h] at htold
  refine ⟨hfs, b, (hr.run_eq_some_iff hs).2 ⟨room, happly⟩, ?_, ?_⟩
  · have hfree : fs.countP Act.isCharged = 0 := by
      refine List.countP_eq_zero.2 fun a' ha' => ?_
      obtain ⟨q, d, rfl⟩ := hfs a' ha'
      exact Bool.false_ne_true
    have hsteps := htold.steps
    rw [List.countP_append, List.countP_cons, hfree, Nat.zero_add] at hsteps
    rw [hsteps, List.countP_append, List.countP_singleton]
    exact Nat.zero_add _
  · have hnone : Act.failures (a :: fs) = [] := by
      refine Act.failures_of_faults fun a' ha' => ?_
      rcases List.mem_cons.1 ha' with rfl | ha'
      · rw [ha]
        rfl
      · obtain ⟨q, d, rfl⟩ := hfs a' ha'
        rfl
    have hfurthest := htold.furthest
    rw [Act.failures_append_acts, hnone, List.append_nil] at hfurthest
    exact hfurthest.trans (Failure.join_none_left _)

/-- A fault anywhere in a run ends the run with it: nothing is applied and no failure is recorded
behind it, and the parse reports it. A run that comes to anything else has met no fault, no
transform that refuses and no rule that is bound to nothing, in whatever it tried. -/
theorem fault_aborts (hs : s.Composed) (hr : r.Composed) (text : String) (l : Limits) :
    (∀ room es a fs f, r.runActs s text.toList l room = es ++ a :: fs → a.fault? = some f →
      (∀ a' ∈ fs, ∃ q d, a' = .ended q d (.error f)) ∧
      (∃ b, r.run s text.toList l = some (.error f, b) ∧
        b.steps = (es ++ [a]).countP Act.isCharged ∧
        b.furthest = Failure.furthest (Act.failures es)) ∧
      r.parseWith s text l = some (.error (.ofFault text.toList f)) ∧
      r.parseAllWith s text l = some (.error (.ofFault text.toList f))) ∧
    (∀ room, (r.runActs s text.toList l room).IsChain Act.Precedes ∧
      (∀ q d name, .began q d ∈ r.runActs s text.toList l room → q.unbound? s = some name →
        [.began q d, .ended q d (.error ⟨.unbound name, d.offset⟩)] <:+: r.runActs s
          text.toList l room) ∧
      ∀ q t d m step e, [.ended q d (.ok (.success m)), .ended (.mapped q t) d step] <:+:
        r.runActs s text.toList l room → t m.value = .error e →
          step = .error ⟨.transform e, d.offset⟩) ∧
    (∀ f b, r.run s text.toList l = some (.error f, b) →
      Act.Aborted s (r.runActs s text.toList l (r.room s text.toList l)) f) ∧
    ((∃ x, r.parseWith s text l = some (.ok x)) ∨ (∃ v, r.parseAllWith s text l = some (.ok v)) ∨
        (∃ e, e.fault? = none ∧ (r.parseWith s text l = some (.error e) ∨
          r.parseAllWith s text l = some (.error e))) →
      ∀ room, Act.Faultless (r.runActs s text.toList l room) ∧
        (∀ q d, .began q d ∈ r.runActs s text.toList l room → q.unbound? s = none) ∧
        ∀ q t d m step, [.ended q d (.ok (.success m)), .ended (.mapped q t) d step] <:+:
          r.runActs s text.toList l room → ∃ v, t m.value = .ok v) := by
  have habort {room es a fs f} (h : r.runActs s text.toList l room = es ++ a :: fs)
      (ha : a.fault? = some f) :=
    hr.run_aborted hs h ha
  have hchain room := hr.acts_chain hs room (.start text.toList) (.fresh l)
  refine ⟨fun room es a fs f h ha => ?_, fun room => ⟨hchain room, fun q d name h hname => ?_, ?_⟩,
    fun f b h => ?_, fun hparse room => ?_⟩
  · obtain ⟨hfs, b, hrun, hsteps, hfurthest⟩ := habort h ha
    exact ⟨hfs, ⟨b, hrun, hsteps, hfurthest⟩, parse_fault hrun⟩
  · exact acts_unbound h hname
  · exact fun q t d m step e h ht => acts_refuses (hchain room) h ht
  · have htells := hr.acts_tells hs (r.room s text.toList l) (.start text.toList) (.fresh l)
    rwa [show r.apply s (r.room s text.toList l) (.start text.toList) (.fresh l) = _ from h]
      at htells
  · have hfaultless : Act.Faultless (r.runActs s text.toList l room) := by
      intro a ha
      cases hf : a.fault? with
      | none => rfl
      | some f =>
        exfalso
        obtain ⟨es, fs, hsplit⟩ := List.append_of_mem ha
        obtain ⟨-, b, hrun, -⟩ := habort hsplit hf
        obtain ⟨hwith, hall⟩ := parse_fault hrun
        rcases hparse with ⟨x, h⟩ | ⟨v, h⟩ | ⟨e, he, h | h⟩
        · cases hwith.symm.trans h
        · cases hall.symm.trans h
        · obtain rfl := Except.error.inj (Option.some.inj (hwith.symm.trans h))
          cases he
        · obtain rfl := Except.error.inj (Option.some.inj (hall.symm.trans h))
          cases he
    refine ⟨hfaultless, fun q d hbegan => ?_, fun q t d m step h => ?_⟩
    · cases hname : q.unbound? s with
      | none => rfl
      | some name =>
        have hended :=
          (acts_unbound hbegan hname).subset (List.mem_cons_of_mem _ List.mem_cons_self)
        cases hfaultless _ hended
    · cases ht : t m.value with
      | ok v => exact ⟨v, rfl⟩
      | error e =>
        obtain rfl := acts_refuses (hchain room) h ht
        have hended := h.subset (List.mem_cons_of_mem _ List.mem_cons_self)
        cases hfaultless _ hended

/-- A transform that refuses inside a repetition, an optional rule and a choice with an alternative
left, behind an alternative that did not match. -/
theorem fault_aborts_nested :
    parseAllWith .empty
        (.sequence [.literal "x", .choice [.literal "y",
          .optional (.repeated (.mapped (.literal "a") fun _ => .error "no")), .literal "a"]])
        "xa" .standard =
      some (.error (.fault ⟨1, 1, 2⟩ ⟨.transform "no", 1⟩)) ∧
    ∃ b, run .empty
        (.sequence [.literal "x", .choice [.literal "y",
          .optional (.repeated (.mapped (.literal "a") fun _ => .error "no")), .literal "a"]])
        ['x', 'a'] .standard =
      some (.error ⟨.transform "no", 1⟩, b) ∧ b.steps = 8 ∧
        b.furthest = some ⟨1, [.literal "y"]⟩ := by
  -- Of the 16 things that happen, the end of the rule with the transform is behind 11.
  obtain ⟨-, ⟨b, hrun, hsteps, hfurthest⟩, -, hall⟩ :=
    (fault_aborts (s := .empty)
      (r := .sequence [.literal "x", .choice [.literal "y",
        .optional (.repeated (.mapped (.literal "a") fun _ => .error "no")), .literal "a"]])
      (by decide) (by decide) "xa" .standard).1 9
    ((runActs .empty
      (.sequence [.literal "x", .choice [.literal "y",
        .optional (.repeated (.mapped (.literal "a") fun _ => .error "no")), .literal "a"]])
      ['x', 'a'] .standard 9).take 11)
    (.ended (.mapped (.literal "a") fun _ => .error "no") ((Cursor.start ['x', 'a']).forward 1)
      (.error ⟨.transform "no", 1⟩))
    ((runActs .empty
      (.sequence [.literal "x", .choice [.literal "y",
        .optional (.repeated (.mapped (.literal "a") fun _ => .error "no")), .literal "a"]])
      ['x', 'a'] .standard 9).drop 12)
    ⟨.transform "no", 1⟩ rfl rfl
  exact ⟨hall, b, hrun, hsteps, hfurthest⟩

end Rule

end Descent
