import DocQuery.Proofs.Client.Building
import Mathlib.Logic.Function.Basic

/-!
# Users side by side

Queries are values, so that others never touch what a user has built, and running one is confined to a namespace.
`UserStep.agree_take` is what a step of the user preserves and `UserStep.agree_take_apart` what a step of somebody else
does; `World.alike_takeAll` joins them along a schedule.
-/

namespace DocQuery

def QueryStep.events : QueryStep → Query → List Event
  | addCondition step, q => step.events q.assembly
  | _, _ => []

/-! ## Steps of a user -/

inductive UserStep : Type 1 where
  | start (i : Nat)
  | copy (i j : Nat)
  | extend (i : Nat) (step : QueryStep)
  | explain (i : Nat)
  | run {α : Type} (i : Nat) (t : Terminal α)

inductive Answer : Type 1 where
  | built (q : Query)
  | explained (explanation : Except QueryError Explanation)
  | ran {α : Type} (answer : Except QueryError α)

structure User where
  queries : Nat → Query
  ids : IdSupply
  log : List Event := []

namespace UserStep

def build (client : Client) : UserStep → (Nat → Query) → Nat → Query
  | start i, queries => Function.update queries i client.newQuery
  | copy i j, queries => Function.update queries j (queries i)
  | extend i step, queries => Function.update queries i (step.run (queries i))
  | explain _, queries | run _ _, queries => queries

def take (client : Client) (step : UserStep) (u : User) (store : MemoryStore) : Answer × User × MemoryStore :=
  let queries := step.build client u.queries
  match step with
  | start i | copy _ i => (.built (queries i), { u with queries }, store)
  | extend i step => (.built (queries i), { u with queries, log := u.log ++ step.events (u.queries i) }, store)
  | explain i => (.explained (queries i).explain, u, store)
  | run i t =>
      let (answer, after) := t.run client (queries i) ⟨store, u.ids, u.log⟩
      (.ran answer, ⟨queries, after.ids, after.log⟩, after.store)

def takeAll (client : Client) : List UserStep → User → MemoryStore → List Answer × User × MemoryStore
  | [], u, store => ([], u, store)
  | step :: steps, u, store =>
      let (answer, u, store) := step.take client u store
      let (answers, after) := takeAll client steps u store
      (answer :: answers, after)

def Selects (client : Client) : UserStep → (Nat → Query) → Namespace → Prop
  | run i _, queries, ns => client.Selects (queries i) ns
  | _, _, _ => False

def Uses (client : Client) : List UserStep → (Nat → Query) → Namespace → Prop
  | [], _, _ => False
  | step :: steps, queries, ns => step.Selects client queries ns ∨ Uses client steps (step.build client queries) ns

variable {client : Client} {step : UserStep} {u : User} {a b : MemoryStore} {P : Namespace → Prop}

theorem takeAll_cons (client : Client) (step : UserStep) (steps : List UserStep) (u : User) (a : MemoryStore) :
    takeAll client (step :: steps) u a =
      ((step.take client u a).1 :: (takeAll client steps (step.take client u a).2.1 (step.take client u a).2.2).1,
        (takeAll client steps (step.take client u a).2.1 (step.take client u a).2.2).2) := rfl

theorem queries_take (client : Client) (step : UserStep) (u : User) (a : MemoryStore) :
    (step.take client u a).2.1.queries = step.build client u.queries := by
  cases step <;> rfl

theorem agree_take (inside : ∀ ns, step.Selects client u.queries ns → P ns) (agree : a.Agree P b) :
    (step.take client u a).1 = (step.take client u b).1 ∧ (step.take client u a).2.1 = (step.take client u b).2.1 ∧
      (step.take client u a).2.2.Agree P (step.take client u b).2.2 := by
  cases step with
  | run i t =>
      have confined := t.confined_run client (u.queries i)
      have before : Session.Agree P ⟨a, u.ids, u.log⟩ ⟨b, u.ids, u.log⟩ := ⟨agree, rfl, rfl⟩
      have answers := confined.answer (before.weaken inside)
      have after := confined.agree_wider inside before
      refine ⟨congrArg Answer.ran answers, ?_, after.store⟩
      simp only [take, build, after.ids, after.log]
  | _ => exact ⟨rfl, rfl, agree⟩

theorem agree_take_apart (outside : ∀ ns, step.Selects client u.queries ns → ¬ P ns) :
    (step.take client u a).2.2.Agree P a := by
  cases step with
  | run i t => exact (t.confined_run client (u.queries i)).agree_apart outside ⟨a, u.ids, u.log⟩
  | _ => exact ⟨rfl, fun _ _ => rfl⟩

end UserStep

/-! ## Schedules -/

structure World (ι : Type) where
  users : ι → User
  store : MemoryStore

section

variable {ι : Type} [DecidableEq ι]

def ofUser {β : Type 1} (k : ι) (entries : List (ι × β)) : List β :=
  entries.filterMap fun entry => if entry.1 = k then some entry.2 else none

theorem ofUser_cons_self {β : Type 1} (k : ι) (b : β) (entries : List (ι × β)) :
    ofUser k ((k, b) :: entries) = b :: ofUser k entries := by
  simp [ofUser]

theorem ofUser_cons_of_ne {β : Type 1} {j k : ι} (other : j ≠ k) (b : β) (entries : List (ι × β)) :
    ofUser k ((j, b) :: entries) = ofUser k entries := by
  simp [ofUser, other]

namespace World

def take (client : Client) (k : ι) (step : UserStep) (w : World ι) : Answer × World ι :=
  let (answer, u, store) := step.take client (w.users k) w.store
  (answer, ⟨Function.update w.users k u, store⟩)

def takeAll (client : Client) : List (ι × UserStep) → World ι → List (ι × Answer) × World ι
  | [], w => ([], w)
  | (k, step) :: schedule, w =>
      let (answer, w) := w.take client k step
      let (answers, after) := takeAll client schedule w
      ((k, answer) :: answers, after)

def Uses (client : Client) (schedule : List (ι × UserStep)) (w : World ι) (k : ι) : Namespace → Prop :=
  UserStep.Uses client (ofUser k schedule) (w.users k).queries

variable {client : Client} {schedule : List (ι × UserStep)} {w : World ι} {step : UserStep} {j k : ι}
  {P : Namespace → Prop} {ns : Namespace}

theorem users_take_self (client : Client) (k : ι) (step : UserStep) (w : World ι) :
    (w.take client k step).2.users k = (step.take client (w.users k) w.store).2.1 :=
  Function.update_self k _ w.users

theorem users_take_of_ne (other : k ≠ j) (client : Client) (step : UserStep) (w : World ι) :
    (w.take client j step).2.users k = w.users k :=
  Function.update_of_ne other _ w.users

theorem uses_cons_self :
    w.Uses client ((k, step) :: schedule) k ns ↔
      step.Selects client (w.users k).queries ns ∨ (w.take client k step).2.Uses client schedule k ns := by
  rw [Uses, Uses, ofUser_cons_self, users_take_self, UserStep.queries_take]
  rfl

theorem uses_cons_of_ne (other : k ≠ j) :
    w.Uses client ((j, step) :: schedule) k ns ↔ (w.take client j step).2.Uses client schedule k ns := by
  rw [Uses, Uses, ofUser_cons_of_ne other.symm, users_take_of_ne other]

theorem uses_cons (later : (w.take client j step).2.Uses client schedule k ns) :
    w.Uses client ((j, step) :: schedule) k ns := by
  by_cases own : k = j
  · subst own
    exact uses_cons_self.mpr (.inr later)
  · exact (uses_cons_of_ne own).mpr later

theorem takeAll_cons (client : Client) (j : ι) (step : UserStep) (schedule : List (ι × UserStep)) (w : World ι) :
    takeAll client ((j, step) :: schedule) w =
      ((j, (w.take client j step).1) :: (takeAll client schedule (w.take client j step).2).1,
        (takeAll client schedule (w.take client j step).2).2) := rfl

theorem alike_takeAll (k : ι) (schedule : List (ι × UserStep)) (w : World ι) (store : MemoryStore)
    (inside : ∀ ns, w.Uses client schedule k ns → P ns)
    (outside : ∀ j, j ≠ k → ∀ ns, w.Uses client schedule j ns → ¬ P ns) (agree : w.store.Agree P store) :
    let together := takeAll client schedule w
    let alone := UserStep.takeAll client (ofUser k schedule) (w.users k) store
    ofUser k together.1 = alone.1 ∧ together.2.users k = alone.2.1 ∧ together.2.store.Agree P alone.2.2 := by
  -- what the two stores agree on, a step of the user keeps by doing the same to both, and a step of somebody else
  -- by not touching it
  induction schedule generalizing w store with
  | nil => exact ⟨rfl, rfl, agree⟩
  | cons entry schedule ih =>
      obtain ⟨j, step⟩ := entry
      rw [takeAll_cons]
      by_cases own : j = k
      · subst own
        obtain ⟨answer, user, after⟩ := UserStep.agree_take
          (fun ns selects => inside ns (uses_cons_self.mpr (.inl selects))) agree
        have following := ih (w.take client j step).2 (step.take client (w.users j) store).2.2
          (fun ns uses => inside ns (uses_cons uses)) (fun i other ns uses => outside i other ns (uses_cons uses)) after
        rw [users_take_self, user] at following
        simp only [ofUser_cons_self, UserStep.takeAll_cons]
        exact ⟨congrArg₂ List.cons answer following.1, following.2⟩
      · have apart : ∀ ns, step.Selects client (w.users j).queries ns → ¬ P ns :=
          fun ns selects => outside j own ns (uses_cons_self.mpr (.inl selects))
        have following := ih (w.take client j step).2 store
          (fun ns uses => inside ns (uses_cons uses)) (fun i other ns uses => outside i other ns (uses_cons uses))
          ((UserStep.agree_take_apart apart).trans agree)
        rw [users_take_of_ne (Ne.symm own)] at following
        simp only [ofUser_cons_of_ne own]
        exact following

end World

end

end DocQuery
