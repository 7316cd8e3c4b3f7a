import Mycellios.Data.Dict
import Mycellios.Logic.Machine

/-! `persistence_outbox` of `database.ts` and `flushPendingChanges` of `supabase-sync.ts`. A run is
suspended while an upload is in flight; what happens in between is an event. The remote store is the
changes it has accepted. -/

namespace Mycellios.Persistence

open Data Logic

inductive Operation
  | upsert | delete
  deriving DecidableEq

structure Change where
  operation : Operation
  payloadJson : Option String
  deriving DecidableEq

abbrev Record := String × String

structure OutboxRow where
  record : Record
  change : Change
  attempts : Nat
  lastError : Option String
  createdAt : Int
  updatedAt : Int

/-- A run of `flushPendingChanges` that waits for the answer to its first pending change. -/
structure Run where
  pending : List (Nat × OutboxRow)
  listed : Nat
  processed : Nat
  accepted : Bool

/-- `givenUp` are the uploads whose run went on before the store had taken them. -/
structure State where
  rows : Dict Nat OutboxRow
  sequence : Nat
  closed : Bool
  runs : Dict Nat Run
  givenUp : List (Record × Change)
  remote : List (Record × Change)

def State.empty : State := ⟨Dict.empty, 0, false, Dict.empty, [], []⟩

/-- The keys of `TABLE_PRIMARY_KEYS`. -/
def syncedTables : List String :=
  ["workers", "jobs", "sessions", "idempotency_keys", "requested_models", "benchmark_runs",
    "inference_conversations", "inference_messages", "activation_events", "diagnostic_events",
    "deployment_states", "deployment_operations", "route_reservations", "deployment_stage_leases",
    "studio_agents", "studio_agent_revisions", "studio_channel_deployments", "studio_agent_events",
    "studio_knowledge_sources", "studio_knowledge_chunks", "studio_memory_facts",
    "studio_tool_audit", "studio_invocations", "studio_telegram_policies",
    "studio_telegram_updates"]

def isSyncedTable (tableName : String) : Bool := tableName ∈ syncedTables

namespace State

variable (s : State)

def rowOf (record : Record) : Option (Nat × OutboxRow) := s.rows.entries.find? (·.2.record = record)

def enqueueRemoteChange (record : Record) (change : Change) (now : Int) : State :=
  match s.rowOf record with
  | some (id, row) => { s with rows := s.rows.insert id { row with
      change := change
      attempts := 0
      lastError := none
      updatedAt := now } }
  | none => { s with
      rows := s.rows.insert (s.sequence + 1) {
        record := record
        change := change
        attempts := 0
        lastError := none
        createdAt := now
        updatedAt := now }
      sequence := s.sequence + 1 }

/-- `ORDER BY updated_at, id LIMIT ?`. -/
def listPendingRemoteChanges (limit : Nat) : List (Nat × OutboxRow) :=
  (s.rows.entries.insertionSort fun a b =>
    a.2.updatedAt < b.2.updatedAt ∨ a.2.updatedAt = b.2.updatedAt ∧ a.1 ≤ b.1).take limit

def markRemoteChangeSynced (id : Nat) : State := { s with rows := s.rows.erase id }

def markRemoteChangeFailed (id : Nat) (error : String) (now : Int) : State :=
  { s with rows := s.rows.update (fun key _ => key = id) fun row => { row with
      attempts := row.attempts + 1
      lastError := some (String.ofList (error.toList.take 2000))
      updatedAt := now } }

section Flush

variable (run : Nat)

def finish : State := { s with runs := s.runs.erase run }

def upload (pending : List (Nat × OutboxRow)) (listed processed : Nat) (now : Int) : State :=
  match pending with
  | [] => s.finish run
  | (id, row) :: _ =>
    if isSyncedTable row.record.1 then
      { s with runs := s.runs.insert run ⟨pending, listed, processed, false⟩ }
    else
      let message := "Unsupported Supabase persistence table: " ++ row.record.1
      (s.markRemoteChangeFailed id message now).finish run

/-- `while (!this.closed || processed === 0)`. -/
def list (processed : Nat) (now : Int) : State :=
  if s.closed ∧ processed ≠ 0 then s.finish run
  else
    let pending := s.listPendingRemoteChanges 100
    s.upload run pending pending.length processed now

def accept : State :=
  match s.runs.find? run with
  | none => s
  | some r =>
    match r.accepted, r.pending with
    | false, (_, row) :: _ => { s with
        runs := s.runs.insert run { r with accepted := true }
        remote := s.remote ++ [(row.record, row.change)] }
    | _, _ => s

def answered (ok : Bool) (error : String) (now : Int) : State :=
  match s.runs.find? run with
  | none => s
  | some r =>
    match r.pending with
    | [] => s
    | (id, row) :: rest =>
      if ok then
        let s := s.markRemoteChangeSynced id
        if rest = [] then
          if r.listed < 100 then s.finish run else s.list run (r.processed + 1) now
        else s.upload run rest r.listed (r.processed + 1) now
      else { (s.markRemoteChangeFailed id error now).finish run with
        givenUp := s.givenUp ++ if r.accepted then [] else [(row.record, row.change)] }

def acceptLate (upload : Nat) : State :=
  match s.givenUp[upload]? with
  | none => s
  | some change => { s with
      givenUp := s.givenUp.eraseIdx upload
      remote := s.remote ++ [change] }

end Flush

end State

/-- A change is queued, a run starts, the store accepts what a run has in flight or answers it, the
store accepts what a run has given up, or all is closed. -/
inductive Event
  | enqueue (record : Record) (change : Change)
  | flush (run : Nat)
  | accept (run : Nat)
  | answer (run : Nat) (ok : Bool) (error : String)
  | late (upload : Nat)
  | close

/-- An answer is `ok` only if the change was accepted. -/
def State.handle (s : State) (now : Int) : Event → State
  | .enqueue record change => s.enqueueRemoteChange record change now
  | .flush run => if s.runs.contains run then s else s.list run 0 now
  | .accept run => s.accept run
  | .answer run true error => (s.accept run).answered run true error now
  | .answer run false error => s.answered run false error now
  | .late upload => s.acceptLate upload
  | .close => { s with closed := true }

def step (s : State) (i : Int × Event) : State × Unit := (s.handle i.1 i.2, ())

def queued (record : Record) (events : List (Int × Event)) : List Change :=
  events.filterMap fun i => match i.2 with
    | .enqueue r change => if r = record then some change else none
    | _ => none

def State.acceptedFor (s : State) (record : Record) : List Change :=
  s.remote.filterMap fun r => if r.1 = record then some r.2 else none

end Mycellios.Persistence
