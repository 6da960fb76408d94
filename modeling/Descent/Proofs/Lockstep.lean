import Descent.Proofs.Reading
import Descent.Proofs.Room

namespace Descent

/-- What applying the rules of a family from `start` comes to, if it is the same but for the values.
What is known of a match is as `good` says. -/
inductive InStep {ι : Type} (start : Cursor) (xs : ι → Applied)
    (good : (ι → Value) → Cursor → Budget → Prop) : Prop
  | stuck (h : ∀ i, xs i = none)
  | fault {f : Fault} {b : Budget} (h : ∀ i, xs i = some (.error f, b))
  | failure {f : Failure} {b : Budget} (h : ∀ i, xs i = some (.ok (.failure f), b))
  | success {values : ι → Value} {rest : Cursor} {b : Budget}
    (h : ∀ i, xs i = some (.ok (.success (.spanning (values i) start rest)), b))
      (hgood : good values rest b)

namespace Plan

variable {ι : Type} {apply : Rule → Cursor → Budget → Applied} {r : Rule}
  {start c : Cursor} {b : Budget} {good : (ι → Value) → Cursor → Budget → Prop}

/-- Plans that begin with the same rule are alike if they are so behind each match of it. -/
theorem require_inStep {next : ι → Match → Plan}
    (h : ∀ m b', apply r c b = some (.ok (.success m), b') →
      InStep start (fun i => (next i m).run apply b') good) :
    InStep start (fun i => (require r c (next i)).run apply b) good := by
  have hrun (i : ι) {m : Match} {b' : Budget} (hr : apply r c b = some (.ok (.success m), b')) :
      (require r c (next i)).run apply b = (next i m).run apply b' := by
    rw [require, run, hr]
  cases hr : apply r c b with
  | none =>
    refine .stuck fun i => ?_
    rw [require, run, hr]
  | some x =>
    obtain ⟨step, b'⟩ := x
    cases step with
    | error f =>
      refine .fault (f := f) (b := b') fun i => ?_
      rw [require, run, hr]
    | ok o =>
      cases o with
      | failure f =>
        refine .failure (f := f) (b := b') fun i => ?_
        rw [require, run, hr]
        rfl
      | success m =>
        simp only [hrun _ hr]
        exact h m b' hr

/-- Three rules, each behind the match of the one before. -/
def inTurn (first second third : Rule) (yield : Value → Value → Value → Value) (start : Cursor) :
    Plan :=
  require first start fun l => require second l.rest fun m => require third m.rest fun n =>
    consume (yield l.value m.value n.value) start n.rest

/-- What three rules in turn come to does not depend on what is made of their values. -/
theorem inTurn_inStep (apply : Rule → Cursor → Budget → Applied) (first second third : Rule)
    (yield : ι → Value → Value → Value → Value) (start : Cursor) (b : Budget) :
    InStep start (fun i => (inTurn first second third (yield i) start).run apply b)
      fun values rest b' =>
      ∃ l m n b₁ b₂, apply first start b = some (.ok (.success l), b₁) ∧
        apply second l.rest b₁ = some (.ok (.success m), b₂) ∧
        apply third m.rest b₂ = some (.ok (.success n), b') ∧ rest = n.rest ∧
        ∀ i, values i = yield i l.value m.value n.value := by
  refine require_inStep fun l b₁ hl =>
    require_inStep fun m b₂ hm => require_inStep fun n b' hn => ?_
  exact .success (fun _ => rfl) ⟨l, m, n, b₁, b₂, hl, hm, hn, rfl, fun _ => rfl⟩

end Plan

namespace Rule

variable {ι : Type} {s : Store}

/-- Rules with plans that are alike are alike themselves. -/
theorem apply_inStep {rules : ι → Rule} {plans : ι → Plan} {room : Nat}
    {start : Cursor} {b : Budget} {good : Budget → (ι → Value) → Cursor → Budget → Prop}
    (hplan : ∀ i, (rules i).plan s start = plans i)
    (h : ∀ b₀, b.enter start.offset = (.ok (), b₀) →
      InStep start (fun i => (plans i).run (Rule.apply s room) b₀) (good b₀)) :
    InStep start (fun i => (rules i).apply s (room+1) start b) fun values rest b' =>
      ∃ b₀ b₃, b.enter start.offset = (.ok (), b₀) ∧ good b₀ values rest b₃ ∧ b' = b₃.leave := by
  cases henter : b.enter start.offset with
  | mk entered b₀ =>
    cases entered with
    | error f =>
      refine .fault (f := f) (b := b₀) fun i => ?_
      rw [Rule.apply, henter]
    | ok _ =>
      have happly (i : ι) : (rules i).apply s (room+1) start b =
          ((plans i).run (Rule.apply s room) b₀).map fun x => (x.1, x.2.close x.1) := by
        rw [Rule.apply, henter, hplan]
      simp only [happly]
      cases h b₀ henter with
      | stuck h => exact .stuck fun i => by rw [h i]; rfl
      | @fault f b' h => exact .fault (f := f) (b := b'.leave) fun i => by rw [h i]; rfl
      | @failure f b' h =>
        exact .failure (f := f) (b := (b'.record f).leave) fun i => by rw [h i]; rfl
      | @success values rest b' h hgood =>
        refine .success (fun i => ?_) ⟨b₀, b', rfl, hgood, rfl⟩
        rw [h i]
        rfl

/-- The operators that apply three rules in turn. -/
inductive Trio where
  | enclosed
  | pair
  | sequence

namespace Trio

def rule (first second third : Rule) : Trio → Rule
  | enclosed => .enclosed first second third
  | pair => .pair first third second
  | sequence => .sequence [first, second, third]

def yield : Trio → Value → Value → Value → Value
  | enclosed, _, v, _ => v
  | pair, u, _, w => .list [u, w]
  | sequence, u, v, w => .list (Value.kept [u, v, w])

theorem plan (s : Store) (first second third : Rule) (t : Trio) (c : Cursor) :
    (t.rule first second third).plan s c = .inTurn first second third t.yield c := by
  cases t with
  | enclosed => rfl
  | pair => rfl
  | sequence =>
    have hvalues (u v w : Value) :
        (w.collect (v.collect (u.collect []))).reverse = Value.kept [u, v, w] := by
      have hall := u.reverse_collect [] [v, w]
      rw [← v.reverse_collect, ← w.reverse_collect] at hall
      simpa [Value.kept] using hall
    simp only [rule, Rule.plan, Plan.sequence, Plan.gather, hvalues]
    rfl

end Trio

/-- The operators come to the same, and a match is put together from matches of the three rules in
turn. -/
theorem Trio.inStep (s : Store) (first second third : Rule) (start : Cursor) (b : Budget)
    (room : Nat) :
    InStep start (fun t : Trio => (t.rule first second third).apply s (room+1) start b)
      fun values rest b' =>
      ∃ b₀ b₃, b.enter start.offset = (.ok (), b₀) ∧
        (∃ l m n b₁ b₂, first.apply s room start b₀ = some (.ok (.success l), b₁) ∧
          second.apply s room l.rest b₁ = some (.ok (.success m), b₂) ∧
          third.apply s room m.rest b₂ = some (.ok (.success n), b₃) ∧ rest = n.rest ∧
          ∀ t, values t = t.yield l.value m.value n.value) ∧ b' = b₃.leave :=
  apply_inStep (fun t => t.plan s first second third start) fun b₀ _ =>
    Plan.inTurn_inStep (Rule.apply s room) first second third yield start b₀

/-- To enclose `b` in `a` and `c`, to pair `a` and `c` with `b` in between, and to apply all three
in sequence come to the same, whatever the limits and the account before: they get stuck, raise the
same fault or fail in the same way, or match the same text. All leave the same account. The value is
that of `b`, the list of those of `a` and `c`, or the list of those of all three that are worth
keeping. -/
theorem enclosed_pair_sequence (s : Store) (a b c : Rule) (p : Cursor) (k : Budget) (room : Nat) :
    ((enclosed a b c).apply s room p k = none ∧ (pair a c b).apply s room p k = none ∧
      (sequence [a, b, c]).apply s room p k = none) ∨
    (∃ f k', (enclosed a b c).apply s room p k = some (.error f, k') ∧
      (pair a c b).apply s room p k = some (.error f, k') ∧
      (sequence [a, b, c]).apply s room p k = some (.error f, k')) ∨
    (∃ f k', (enclosed a b c).apply s room p k = some (.ok (.failure f), k') ∧
      (pair a c b).apply s room p k = some (.ok (.failure f), k') ∧
      (sequence [a, b, c]).apply s room p k = some (.ok (.failure f), k')) ∨
    ∃ (l m n : Match) (k₀ k₁ k₂ k₃ : Budget), k.enter p.offset = (.ok (), k₀) ∧
      a.apply s (room-1) p k₀ = some (.ok (.success l), k₁) ∧
      b.apply s (room-1) l.rest k₁ = some (.ok (.success m), k₂) ∧
      c.apply s (room-1) m.rest k₂ = some (.ok (.success n), k₃) ∧
      (enclosed a b c).apply s room p k =
        some (.ok (.success (.spanning m.value p n.rest)), k₃.leave) ∧
      (pair a c b).apply s room p k =
        some (.ok (.success (.spanning (.list [l.value, n.value]) p n.rest)), k₃.leave) ∧
      (sequence [a, b, c]).apply s room p k =
        some (.ok (.success (.spanning (.list (Value.kept [l.value, m.value, n.value])) p n.rest)),
          k₃.leave) := by
  cases room with
  | zero => exact .inl ⟨rfl, rfl, rfl⟩
  | succ room =>
    cases Trio.inStep s a b c p k room with
    | stuck h => exact .inl ⟨h .enclosed, h .pair, h .sequence⟩
    | fault h => exact .inr (.inl ⟨_, _, h .enclosed, h .pair, h .sequence⟩)
    | failure h => exact .inr (.inr (.inl ⟨_, _, h .enclosed, h .pair, h .sequence⟩))
    | @success values rest k' h hgood =>
      obtain ⟨k₀, k₃, henter, ⟨l, m, n, k₁, k₂, hl, hm, hn, rfl, hvalues⟩, rfl⟩ := hgood
      simp only [hvalues] at h
      exact .inr (.inr (.inr ⟨l, m, n, k₀, k₁, k₂, k₃, henter, hl, hm, hn, h .enclosed, h .pair,
        h .sequence⟩))

/-- Within limits there is room for all three to end, and they end alike. -/
theorem Trio.ends_alike (s : Store) (a b c : Rule) (p : Cursor) {k : Budget}
    (hk : k.limits ≠ .unbounded) : ∃ room k',
      (∃ f, ∀ t : Trio, (t.rule a b c).apply s room p k = some (.error f, k')) ∨
      (∃ f, ∀ t : Trio, (t.rule a b c).apply s room p k = some (.ok (.failure f), k')) ∨
      ∃ u v w rest, ∀ t : Trio,
        (t.rule a b c).apply s room p k =
          some (.ok (.success (.spanning (t.yield u v w) p rest)), k') := by
  obtain ⟨room, step, k', happly⟩ := exists_apply s (rule a b c .enclosed) p hk
  have hroom := apply_mono (Nat.le_succ room) happly
  refine ⟨room+1, ?_⟩
  cases Trio.inStep s a b c p k room with
  | stuck h =>
    rw [h .enclosed] at hroom
    cases hroom
  | fault h => exact ⟨_, .inl ⟨_, h⟩⟩
  | failure h => exact ⟨_, .inr (.inl ⟨_, h⟩)⟩
  | @success values rest k' h hgood =>
    obtain ⟨_, _, _, ⟨l, m, n, _, _, _, _, _, _, hvalues⟩, _⟩ := hgood
    simp only [hvalues] at h
    exact ⟨_, .inr (.inr ⟨_, _, _, _, h⟩)⟩

end Rule

end Descent
