import DocQuery.Proofs.Client.Confinement
import DocQuery.Proofs.Filter.Clauses

namespace DocQuery

/-! ## Chains of steps -/

inductive QueryStep where
  | inDatabase (name : String)
  | inTable (name : String)
  | addCondition (step : ConditionStep)
  | setPromotion (promotion : Promotion)
  | select (fields : List String)
  | orderBy (fields : List String) (direction : Direction)

namespace QueryStep

def run : QueryStep → Query → Query
  | inDatabase name, q => q.inDatabase name
  | inTable name, q => q.inTable name
  | addCondition step, q => q.addCondition step
  | setPromotion promotion, q => q.setPromotion promotion
  | select fields, q => q.select fields
  | orderBy fields direction, q => q.orderBy fields direction

def runAll (steps : List QueryStep) (q : Query) : Query := steps.foldl (fun q step => step.run q) q

def database? : QueryStep → Option String
  | inDatabase name => some name
  | _ => none

def table? : QueryStep → Option String
  | inTable name => some name
  | _ => none

end QueryStep

/-! ## Names -/

def lastName (names : List String) : Option String := (names.filter (· ≠ "")).getLast?

theorem lastName_append (names more : List String) :
    lastName (names ++ more) = (lastName more).or (lastName names) := by
  rw [lastName, List.filter_append, List.getLast?_append]
  rfl

theorem lastName_toList (name : Option String) : lastName name.toList = name.filter (· ≠ "") := by
  cases name with
  | none => rfl
  | some name => by_cases empty : name = "" <;> simp [lastName, Option.filter, empty]

theorem ne_empty_of_lastName {names : List String} {name : String} (h : lastName names = some name) : name ≠ "" := by
  have kept := List.mem_filter.mp (List.mem_of_getLast? h)
  simpa using kept.2

namespace QueryStep

theorem setting_runAll {setting : Query → Option String} {given : QueryStep → Option String}
    (each : ∀ step q, setting (run step q) = (lastName (given step).toList).or (setting q))
    (steps : List QueryStep) (q : Query) :
    setting (runAll steps q) = (lastName (steps.filterMap given)).or (setting q) := by
  induction steps generalizing q with
  | nil => rfl
  | cons step steps ih =>
      have names : (step :: steps).filterMap given = (given step).toList ++ steps.filterMap given := by
        cases h : given step <;> simp [h]
      rw [names, lastName_append, Option.or_assoc, ← each]
      exact ih (step.run q)

theorem database_run (step : QueryStep) (q : Query) :
    (step.run q).database = (lastName step.database?.toList).or q.database := by
  cases step with
  | inDatabase name => by_cases empty : name = "" <;> simp [run, Query.inDatabase, database?, lastName, empty]
  | inTable name => by_cases empty : name = "" <;> simp [run, Query.inTable, database?, lastName, empty]
  | _ => rfl

theorem table_run (step : QueryStep) (q : Query) :
    (step.run q).table = (lastName step.table?.toList).or q.table := by
  cases step with
  | inDatabase name => by_cases empty : name = "" <;> simp [run, Query.inDatabase, table?, lastName, empty]
  | inTable name => by_cases empty : name = "" <;> simp [run, Query.inTable, table?, lastName, empty]
  | _ => rfl

end QueryStep

/-! ## Open groups -/

namespace ConditionStep

mutual

theorem depth_run (step : ConditionStep) (a : Assembly) : (step.toAssemblyStep.run a).depth = a.depth := by
  cases step with
  | compare kind field operator operand => exact Assembly.depth_add _ _ _
  | compareByToken kind field token operand => exact Assembly.depth_add _ _ _
  | group kind steps =>
      have inside : (AssemblyStep.runAll (toAssemblySteps steps) (a.openGroup kind)).depth = a.depth + 1 :=
        depth_runAll steps (a.openGroup kind)
      simp only [toAssemblyStep, AssemblyStep.run, Assembly.depth_closeDownTo, inside]
      omega

theorem depth_runAll (steps : List ConditionStep) (a : Assembly) :
    (AssemblyStep.runAll (toAssemblySteps steps) a).depth = a.depth := by
  cases steps with
  | nil => rfl
  | cons step steps =>
      rw [toAssemblySteps, AssemblyStep.runAll, depth_runAll steps, depth_run step]

end

end ConditionStep

namespace QueryStep

theorem depth_run (step : QueryStep) (q : Query) : (step.run q).assembly.depth = q.assembly.depth := by
  cases step with
  | addCondition step => exact step.depth_run q.assembly
  | inDatabase name => by_cases empty : name = "" <;> simp [run, Query.inDatabase, empty]
  | inTable name => by_cases empty : name = "" <;> simp [run, Query.inTable, empty]
  | _ => rfl

theorem depth_runAll (steps : List QueryStep) (q : Query) :
    (runAll steps q).assembly.depth = q.assembly.depth := by
  induction steps generalizing q with
  | nil => rfl
  | cons step steps ih => exact (ih (step.run q)).trans (depth_run step q)

theorem group?_runAll (steps : List QueryStep) (client : Client) :
    ∃ g, (runAll steps client.newQuery).group? = .ok g := by
  have closed := depth_runAll steps client.newQuery
  exact ⟨_, mapError_eq_ok_iff.mpr (Assembly.group?_eq_ok_iff.mpr ⟨closed, rfl⟩)⟩

end QueryStep

/-! ## Failing for want of a filter -/

theorem QueryError.ofStore_ne_filter (e : StoreError) (cause : AssemblyError) : ofStore e ≠ .filter cause := by
  intro same
  cases e <;> cases same

namespace Session

variable {σ α β : Type}

/-- The task does not fail because a filter could not be assembled. -/
def Blameless (task : Task σ α) : Prop := ∀ s cause, (task s).1 ≠ .error (.filter cause)

theorem blameless_perform (action : StoreAction σ α) : Blameless (perform action) := by
  intro s cause failed
  cases outcome : (action s.store).1 with
  | error e =>
      simp only [perform, outcome] at failed
      exact QueryError.ofStore_ne_filter e cause (Except.error.inj failed)
  | ok answer =>
      simp only [perform, outcome] at failed
      cases failed

theorem blameless_performNaming (action : IdSupply → StoreAction σ (α × IdSupply)) :
    Blameless (performNaming action) := by
  intro s cause
  have performed := blameless_perform (action s.ids) s cause
  unfold performNaming
  rcases outcome : perform (action s.ids) s with ⟨e | ⟨answer, ids⟩, after⟩ <;> intro failed <;> cases failed
  exact performed (congrArg Prod.fst outcome)

theorem blameless_checked {argument : Except QueryError β} {task : β → Task σ α}
    (checked : ∀ cause, argument ≠ .error (.filter cause)) (h : ∀ b, Blameless (task b)) :
    Blameless (Query.checked argument task) := by
  intro s cause failed
  cases argument with
  | error e =>
      cases failed
      exact checked cause rfl
  | ok b => exact h b s cause failed

end Session

namespace Writable

variable {τ : Type} [Writable τ]

theorem document?_ne_filter (x : τ) (cause : AssemblyError) : document? x ≠ .error (.filter cause) := by
  intro failed
  unfold document? at failed
  cases written : value? x with
  | none =>
      rw [written] at failed
      cases failed
  | some v =>
      rw [written] at failed
      cases v <;> cases failed

theorem documents?_ne_filter (xs : List τ) (cause : AssemblyError) : documents? xs ≠ .error (.filter cause) := by
  induction xs with
  | nil => simp [documents?]
  | cons x xs ih =>
      rw [documents?]
      cases first : document? x with
      | error e =>
          intro failed
          cases failed
          exact document?_ne_filter x cause first
      | ok doc =>
          intro failed
          cases rest : documents? xs with
          | error e =>
              simp only [rest] at failed
              cases failed
              exact ih rest
          | ok docs =>
              simp only [rest] at failed
              cases failed

end Writable

theorem Query.namespace?_ne_filter (q : Query) (cause : AssemblyError) :
    q.namespace? ≠ .error (.filter cause) := by
  rw [namespace?]
  split <;> simp

section

open Session

variable {σ α : Type} [DocumentStore σ] {client : Client} {q : Query}

theorem Client.blameless_select (client : Client) (q : Query) : Blameless (σ := σ) (client.select q) := by
  intro s cause
  cases connection : client.probeError with
  | some e =>
      rw [select_of_probeError connection]
      simp
  | none =>
      cases names : q.namespace? with
      | error e =>
          rw [select_of_namespace?_error connection names, ← names]
          exact q.namespace?_ne_filter cause
      | ok ns =>
          have performed := blameless_perform (DocumentStore.select ns) s cause
          rw [select_of_namespace? connection names]
          cases outcome : (perform (DocumentStore.select ns) s).1 with
          | error e => simpa [outcome, Except.map] using performed
          | ok _ => simp [Except.map]

theorem Query.blameless_execute {operation : Operation} {run : Namespace → Group → Task σ α} {g : Group}
    (compiled : q.group? = .ok g) (h : ∀ ns g, Blameless (run ns g)) :
    Blameless (q.execute client operation run) := by
  intro s cause
  have selecting := client.blameless_select q s cause
  rcases outcome : client.select q s with ⟨e | ns, selected⟩ <;> rw [outcome] at selecting
  · rw [execute_of_select_error outcome]
    simpa using selecting
  · rw [execute_of_select_ok outcome compiled, carryOut_answer]
    exact h ns g _ cause

theorem Terminal.blameless_run {g : Group} (t : Terminal α) (compiled : q.group? = .ok g) :
    Blameless (σ := σ) (t.run client q) := by
  have getting (limit : Nat) : Blameless (σ := σ) (q.get client limit) :=
    Query.blameless_execute compiled fun _ _ => blameless_perform _
  cases t with
  | get limit => exact getting limit
  | getAs decode limit =>
      intro s cause
      simp only [run, Query.getAs]
      rcases outcome : q.get client limit s with ⟨e | docs, after⟩
      · intro failed
        cases failed
        exact getting limit s cause (congrArg Prod.fst outcome)
      · simp only
        split <;> simp
  | first =>
      refine Query.blameless_execute compiled fun ns g s cause => ?_
      have found := blameless_perform (DocumentStore.find ns g (q.findOptions 1)) s cause
      simp only
      cases outcome : (perform (DocumentStore.find ns g (q.findOptions 1)) s).1 with
      | error e => simpa [outcome, Except.map] using found
      | ok docs => simp [Except.map]
  | create x =>
      exact Query.blameless_execute compiled fun _ _ =>
        blameless_checked (Writable.document?_ne_filter x) fun _ => blameless_performNaming _
  | createMany xs =>
      exact Query.blameless_execute compiled fun _ _ =>
        blameless_checked (Writable.documents?_ne_filter xs) fun _ => blameless_performNaming _
  | update fields =>
      exact Query.blameless_execute compiled fun _ _ =>
        blameless_checked (Writable.document?_ne_filter fields) fun _ => blameless_perform _
  | delete => exact Query.blameless_execute compiled fun _ _ => blameless_perform _
  | count => exact Query.blameless_execute compiled fun _ _ => blameless_perform _

end

/-! ## The guards in their order -/

theorem Client.probeError_connect {σ : Type} [DocumentStore σ] (settings : Settings) (s : Session σ) :
    (connect settings s).1.probeError = match DocumentStore.probe s.store with
      | .ok () => none
      | .error e => some e := by
  unfold connect
  cases DocumentStore.probe s.store <;> rfl

theorem Client.newQuery_connect {σ : Type} [DocumentStore σ] (settings : Settings) (s : Session σ) :
    (connect settings s).1.newQuery = .ofSettings settings := by
  unfold connect newQuery
  cases DocumentStore.probe s.store <;> rfl

namespace QueryStep

section

variable {σ : Type} [DocumentStore σ] (settings : Settings) (start : Session σ) (steps : List QueryStep)

theorem database_of_connect :
    (runAll steps (Client.connect settings start).1.newQuery).database =
      lastName (settings.database.toList ++ steps.filterMap database?) := by
  rw [setting_runAll database_run, lastName_append, lastName_toList, Client.newQuery_connect]
  rfl

theorem table_of_connect :
    (runAll steps (Client.connect settings start).1.newQuery).table = lastName (steps.filterMap table?) := by
  rw [setting_runAll table_run, Client.newQuery_connect]
  exact Option.or_none

end

/-- The guards come in their order: the connection, the name of the database, the name of the table.  A query that
passes them keeps to the collection of the last names given, and one that is stopped leaves the session as it is. -/
theorem run_of_connect {σ α : Type} [DocumentStore σ] (settings : Settings) (start : Session σ)
    (steps : List QueryStep) (t : Terminal α) :
    let client := (Client.connect settings start).1
    let q := runAll steps client.newQuery
    q.assembly.depth = 0 ∧ (∃ filter, q.filter? = .ok filter) ∧ (∃ explanation, q.explain = .ok explanation) ∧
    (∀ (s : Session σ) (cause : AssemblyError), (t.run client q s).1 ≠ .error (.filter cause)) ∧
    match DocumentStore.probe start.store, lastName (settings.database.toList ++ steps.filterMap database?),
      lastName (steps.filterMap table?) with
    | .error e, _, _ => ∀ s : Session σ, t.run client q s = (.error (.connection e.message), s)
    | .ok (), none, _ => ∀ s : Session σ, t.run client q s = (.error (.notSet .database), s)
    | .ok (), some _, none => ∀ s : Session σ, t.run client q s = (.error (.notSet .table), s)
    | .ok (), some database, some table =>
        let ns : Namespace := ⟨database, table⟩
        database ≠ "" ∧ table ≠ "" ∧
        (∀ s : Session σ, client.select q s = ((Session.perform (DocumentStore.select ns) s).1.map fun _ => ns,
          (Session.perform (DocumentStore.select ns) s).2)) ∧
        Session.Confined (· = ns) (t.run client q) ∧
        ∀ s : Session MemoryStore, (client.select q s).2.store.calls = s.store.calls + 1 ∧
          (t.run client q s).2.store.calls =
            s.store.calls + 1 + if s.store.reachable then t.operations else 0 := by
  intro client q
  have closed : q.assembly.depth = 0 := depth_runAll steps client.newQuery
  obtain ⟨g, compiled⟩ := group?_runAll steps client
  have filtered : q.filter? = .ok g.toFilter := by
    rw [Query.filter?, compiled]
    rfl
  refine ⟨closed, ⟨_, filtered⟩, ⟨_, by rw [Query.explain, filtered]; rfl⟩, t.blameless_run compiled, ?_⟩
  have databaseGiven := database_of_connect settings start steps
  have tableGiven := table_of_connect settings start steps
  have connection := Client.probeError_connect settings start
  cases probed : DocumentStore.probe start.store with
  | error e =>
      rw [probed] at connection
      exact fun s => t.run_of_select_error (Client.select_of_probeError connection)
  | ok _ =>
      have connected : client.probeError = none := connection.trans (by rw [probed])
      cases inDatabase : lastName (settings.database.toList ++ steps.filterMap database?) with
      | none =>
          have unnamed : q.namespace? = .error (.notSet .database) := by
            rw [Query.namespace?, databaseGiven, inDatabase]
          exact fun s => t.run_of_select_error (Client.select_of_namespace?_error connected unnamed)
      | some database =>
          cases inTable : lastName (steps.filterMap table?) with
          | none =>
              have unnamed : q.namespace? = .error (.notSet .table) := by
                rw [Query.namespace?, databaseGiven, inDatabase, tableGiven, inTable]
              exact fun s => t.run_of_select_error (Client.select_of_namespace?_error connected unnamed)
          | some table =>
              have named : q.namespace? = .ok ⟨database, table⟩ := by
                rw [Query.namespace?, databaseGiven, inDatabase, tableGiven, inTable]
              have selects : client.Selects q = (· = ⟨database, table⟩) := by
                funext ns
                simp only [Client.Selects, connected, named, true_and, Except.ok.injEq]
                exact propext eq_comm
              refine ⟨ne_empty_of_lastName inDatabase, ne_empty_of_lastName inTable,
                fun s => Client.select_of_namespace? connected named, selects ▸ t.confined_run client q,
                fun s => ⟨?_, Terminal.calls_run connected named compiled t s⟩⟩
              rw [Client.select_of_namespace? connected named]
              exact MemoryStore.calls_call (fun _ => rfl) s.store

end QueryStep

end DocQuery
