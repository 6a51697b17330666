import DocQuery.Proofs.Client.Interleaving

namespace DocQuery

/-! ## Sessions with any store -/

section

variable {σ : Type} [DocumentStore σ]

namespace UserStep

def act (client : Client) (step : UserStep) (queries : Nat → Query) (s : Session σ) : Answer × Session σ :=
  match step with
  | start i | copy _ i => (.built (step.build client queries i), s)
  | extend i queryStep => (.built (step.build client queries i), s.recordAll (queryStep.events (queries i)))
  | explain i => (.explained (queries i).explain, s)
  | run i t =>
      let (answer, after) := t.run client (queries i) s
      (.ran answer, after)

def actAll (client : Client) : List UserStep → (Nat → Query) → Session σ → List Answer × Session σ
  | [], _, s => ([], s)
  | step :: steps, queries, s =>
      let (answer, after) := step.act client queries s
      let (answers, last) := actAll client steps (step.build client queries) after
      (answer :: answers, last)

theorem take_eq_act (client : Client) (step : UserStep) (u : User) (store : MemoryStore) :
    step.take client u store =
      let (answer, after) := step.act client u.queries ⟨store, u.ids, u.log⟩
      (answer, ⟨step.build client u.queries, after.ids, after.log⟩, after.store) := by
  cases step <;> rfl

end UserStep

structure Transcript (σ : Type) where
  connected : Bool
  answers : List Answer
  after : Session σ

def Settings.transcript (settings : Settings) (steps : List UserStep) (s : Session σ) : Transcript σ :=
  let (client, opened) := Client.connect settings s
  let (answers, after) := UserStep.actAll client steps (fun _ => client.newQuery) opened
  ⟨client.isConnected, answers, after⟩

end

/-! ## Concealed passwords -/

namespace Settings

theorem concealed_concealed (password : String) : concealed (concealed password) = concealed password := by
  unfold concealed
  split <;> rfl

theorem redacted_redacted (settings : Settings) : settings.redacted.redacted = settings.redacted := by
  rw [redacted, redacted, concealed_concealed]

theorem description_redacted (settings : Settings) : settings.redacted.description = settings.description := by
  have password : concealed settings.redacted.password = concealed settings.password :=
    concealed_concealed settings.password
  unfold description
  rw [password]
  rfl

end Settings

namespace Client

def redacted (client : Client) : Client := { client with settings := client.settings.redacted }

variable {σ α : Type} [DocumentStore σ] (client : Client) (q : Query)

theorem connect_redacted (settings : Settings) (s : Session σ) :
    connect settings.redacted s = ((connect settings s).1.redacted, (connect settings s).2) := by
  unfold connect
  cases DocumentStore.probe s.store with
  | ok => rfl
  | error e => rw [Settings.redacted_redacted]; rfl

theorem newQuery_redacted : client.redacted.newQuery = client.newQuery := rfl

theorem select_redacted : client.redacted.select q = (client.select q : Task σ Namespace) := rfl

end Client

section

variable {σ α : Type} [DocumentStore σ] (client : Client)

theorem Query.execute_redacted (q : Query) (operation : Operation) (run : Namespace → Group → Task σ α) :
    q.execute client.redacted operation run = q.execute client operation run := by
  funext s
  rw [execute, execute, Client.select_redacted]

theorem Terminal.run_redacted (t : Terminal α) (q : Query) :
    t.run client.redacted q = (t.run client q : Task σ α) := by
  cases t with
  | getAs decode limit =>
      funext s
      simp only [run, Query.getAs, Query.get, Query.execute_redacted]
  | _ =>
      simp only [run, Query.get, Query.first, Query.create, Query.createMany, Query.update, Query.delete, Query.count,
        Query.execute_redacted]

namespace UserStep

theorem build_redacted (step : UserStep) (queries : Nat → Query) :
    step.build client.redacted queries = step.build client queries := by
  cases step <;> rfl

theorem act_redacted (step : UserStep) (queries : Nat → Query) (s : Session σ) :
    step.act client.redacted queries s = step.act client queries s := by
  cases step with
  | run i t => simp only [act, Terminal.run_redacted]
  | _ => rfl

theorem actAll_redacted (steps : List UserStep) (queries : Nat → Query) (s : Session σ) :
    actAll client.redacted steps queries s = actAll client steps queries s := by
  induction steps generalizing queries s with
  | nil => rfl
  | cons step steps ih => simp only [actAll, act_redacted, build_redacted, ih]

end UserStep

end

namespace Settings

variable {σ : Type} [DocumentStore σ]

theorem transcript_redacted (settings : Settings) (steps : List UserStep) (s : Session σ) :
    settings.redacted.transcript steps s = settings.transcript steps s := by
  simp only [transcript, Client.connect_redacted, UserStep.actAll_redacted, Client.newQuery_redacted]
  rfl

theorem redacted_eq_of_password {settings other : Settings}
    (same : other = { settings with password := other.password }) (secret : settings.password ≠ "")
    (secret' : other.password ≠ "") : settings.redacted = other.redacted := by
  have conceal {password : String} (secret : password ≠ "") : concealed password = "***" := if_neg secret
  rw [same]
  simp only [redacted, conceal secret, conceal secret']

/-- Settings that differ only in a password that is not empty have the same description, and from the same store the
same steps give the same answers and the same log. -/
theorem transcript_eq_of_password {settings other : Settings}
    (same : other = { settings with password := other.password }) (secret : settings.password ≠ "")
    (secret' : other.password ≠ "") (steps : List UserStep) (s : Session σ) :
    settings.description = other.description ∧ settings.transcript steps s = other.transcript steps s := by
  have redacted := redacted_eq_of_password same secret secret'
  constructor
  · rw [← description_redacted, redacted, description_redacted]
  · rw [← transcript_redacted, redacted, transcript_redacted]

theorem transcript_eq_of_password_unreachable :
    let settings : Settings := { database := some "app", username := "reader", password := "first" }
    let other : Settings := { settings with password := "second" }
    let steps : List UserStep := [.start 0, .extend 0 (.inTable "items"), .run 0 .count]
    let s : Session MemoryStore := ⟨{ reachable := false }, ⟨fun _ => "x", 0⟩, []⟩
    settings.uri ≠ other.uri ∧ settings.password ≠ "" ∧ other.password ≠ "" ∧
      settings.description = other.description ∧ settings.transcript steps s = other.transcript steps s ∧
      (settings.transcript steps s).connected = false ∧
      (settings.transcript steps s).after.log.map Event.message = ["store unreachable, queries will fail"] := by
  intro settings other steps s
  have same : other = { settings with password := other.password } := rfl
  have secret : settings.password ≠ "" := by decide
  have secret' : other.password ≠ "" := by decide
  obtain ⟨description, transcript⟩ := transcript_eq_of_password same secret secret' steps s
  exact ⟨by decide, secret, secret', description, transcript, rfl, rfl⟩

end Settings

end DocQuery
