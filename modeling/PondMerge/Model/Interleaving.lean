import PondMerge.Model.Run

/-!
The library under its concurrency contract: one owner context, and any number of others that
begin and end borrows, pause and resume pools, and write through the borrows they hold.

What the lock protects is one step: every borrow call and state flip, and the arming and commit
blocks of a maintenance call.  Between its arming and its commit the owner runs the audit, the
single moves and the rebuild as steps of their own, so the other contexts see every state in
between.  All other calls of the owner are one step.
-/

namespace PondMerge

variable [PmConfig]

/-! ### Calls and what they return -/

/-- What a call returns to its caller: its status and its output parameter.  A write is no call,
and takes effect. -/
inductive Reply where
  | none
  | written
  | status (st : Status)
  | ref (st : Status) (out : RawRef)
  | address (st : Status) (out : ℕ)
  | pool (st : Status) (out : Option ℕ)
  | met (st : Status) (targetMet : Bool)
  deriving DecidableEq

/-- The call returned `Ok`. -/
def Reply.ok : Reply → Bool
  | .none => false
  | .written => true
  | .status st | .ref st _ | .address st _ | .pool st _ | .met st _ => st = .ok

/-- The reply to an operation. -/
def reply (G : GlobalState) : Op → Reply
  | .createPool n => .pool (createPool G n).1 (createPool G n).2.1
  | .destroyPool id => .status (destroyPool G id).1
  | .pause id => .status (pause G id).1
  | .resume id => .status (resume G id).1
  | .alloc p size alignment flags tag =>
    .ref (alloc G p size alignment flags tag).1 (alloc G p size alignment flags tag).2.1
  | .free ref ws => .status (free (writingCallback ws) G ref).1
  | .setDestroyFn ref fn => .status (setDestroyFn G ref fn).1
  | .borrowBegin ref n a => .address (borrowBegin G ref n a).1 (borrowBegin G ref n a).2.1
  | .borrowEnd _ => .none
  | .compact p req elapsed => .met (compact G p req elapsed).1 (compact G p req elapsed).2.1
  | .merge s t => .status (merge G s t).1
  | .split s n => .pool (split G s n).1 (split G s n).2.1
  | .write _ => .written

/-- A call that has returned, with its reply. -/
abbrev Event := Op × Reply

/-- The calls that returned `Ok` and the writes, of a single one. -/
def completed (e : Event) : List Event := if e.2.ok then [e] else []

/-! ### Maintenance calls in steps -/

/-- A maintenance call of the owner. -/
inductive Call where
  | compact (pool : ℕ) (req : Option CompactionRequest) (elapsed : ℕ)
  | merge (source target : ℕ)
  | split (source newSegments : ℕ)

/-- The call as one operation. -/
def Call.op : Call → Op
  | .compact p req elapsed => .compact p req elapsed
  | .merge s t => .merge s t
  | .split s n => .split s n

/-- The local variables of a maintenance call behind its arming block: the entry states of its
pools (`was_paused`, `s_paused`, `t_paused`), and the entry a split has claimed. -/
structure Locals where
  source : PoolState
  target : PoolState
  nid : ℕ

/-- One step of a maintenance body that writes. -/
inductive Micro where
  | move (e : MovePlanEntry)
  | mergeMove (target : ℕ) (fromSource : Bool) (e : MovePlanEntry)
  | compactRebuild (pool : ℕ) (slots : List ℕ) (plan : List MovePlanEntry) (elapsed : ℕ)
  | mergeRebuild (source target : ℕ) (slots : List ℕ) (plan : List MovePlanEntry)
  | splitRebuild (source nid newSegments : ℕ) (slots : List ℕ)

/-- What such a step does to the state it finds. -/
def Micro.run (G : GlobalState) : Micro → GlobalState
  | .move e => execMove G e
  | .mergeMove t fromSource e => PondMerge.mergeMove t fromSource G e
  | .compactRebuild p slots plan elapsed => PondMerge.compactRebuild G p slots plan elapsed
  | .mergeRebuild s t slots plan => PondMerge.mergeRebuild G s t slots plan
  | .splitRebuild s nid n slots => PondMerge.splitRebuild G s nid n slots

/-- The entry checks and the arming block. -/
def armCall (G : GlobalState) : Call → Status × Locals × GlobalState
  | .compact p _ _ =>
    if !G.initialized then (.notInitialized, ⟨.empty, .empty, 0⟩, G)
    else match poolAt G p with
    | none => (.invalidPool, ⟨.empty, .empty, 0⟩, G)
    | some P => ((compactArm G p).1, ⟨P.state, .empty, 0⟩, (compactArm G p).2)
  | .merge s t =>
    if !G.initialized then (.notInitialized, ⟨.empty, .empty, 0⟩, G)
    else if s = t then (.invalidPool, ⟨.empty, .empty, 0⟩, G)
    else ((mergeArm G s t).1, ⟨(G.pools s).state, (G.pools t).state, 0⟩, (mergeArm G s t).2)
  | .split s n =>
    if !G.initialized then (.notInitialized, ⟨.empty, .empty, 0⟩, G)
    else ((splitArm G s n).1, ⟨(G.pools s).state, .empty, (splitArm G s n).2.1.getD 0⟩,
      (splitArm G s n).2.2)

/-- The read-only audit and plan: the steps that are to follow, and `target_met`.  It reads only
what no other context writes, so it is one step. -/
def planCall (G : GlobalState) (L : Locals) : Call → Except Status (List Micro × Bool)
  | .compact p req elapsed =>
    match compactAudit G p req with
    | .error e => .error e
    | .ok (slots, plan, met) =>
      .ok (plan.map .move ++ [.compactRebuild p slots plan elapsed], met)
  | .merge s t =>
    match mergeAudit G s t with
    | .error e => .error e
    | .ok (l, u, plan) =>
      let below := sourceBelow (G.pools s) (G.pools t)
      .ok ((plan.take l.length).map (.mergeMove t below)
        ++ (plan.drop l.length).map (.mergeMove t !below)
        ++ [.mergeRebuild s t (l ++ u) plan], false)
  | .split s n =>
    match splitAudit G s n with
    | .error e => .error e
    | .ok (slots, plan) =>
      .ok (plan.moves.map .move ++ [.splitRebuild s L.nid n slots], false)

/-- The final commit, under the lock. -/
def commitCall (G : GlobalState) (L : Locals) : Call → GlobalState
  | .compact p _ _ => compactCommit G p .ok (L.source = .paused)
  | .merge s t => mergeCommit G s t
  | .split s _ => splitCommit G s L.nid

/-- What a call with status `e` does where its plan has failed. -/
def restoreCall (G : GlobalState) (L : Locals) (e : Status) : Call → GlobalState
  | .compact p _ _ => compactCommit G p e (L.source = .paused)
  | .merge s t => mergeRestore G s t L.source L.target
  | .split s _ => splitRestore G s L.nid L.source

/-- The reply of a call that has committed. -/
def Call.success (L : Locals) (met : Bool) : Call → Reply
  | .compact _ _ _ => .met .ok met
  | .merge _ _ => .status .ok
  | .split _ _ => .pool .ok (some L.nid)

/-! ### The machine -/

/-- Where the owner stands. -/
inductive Owner where
  | idle
  | armed (call : Call) (locals : Locals)
  | working (call : Call) (locals : Locals) (met : Bool) (todo : List Micro)
  | failed (call : Call) (locals : Locals) (e : Status)

structure Machine where
  state : GlobalState
  owner : Owner

/-- What another context may do at any time. -/
inductive ContextOp where
  | borrowBegin (ref : RawRef) (accessSize accessAlign : ℕ)
  | borrowEnd (ref : RawRef)
  | pause (id : ℕ)
  | resume (id : ℕ)
  | write (w : PayloadWrite)

def ContextOp.op : ContextOp → Op
  | .borrowBegin ref n a => .borrowBegin ref n a
  | .borrowEnd ref => .borrowEnd ref
  | .pause id => .pause id
  | .resume id => .resume id
  | .write w => .write w

/-- A context writes only into an object that is borrowed. -/
def ContextOp.allowed (G : GlobalState) : ContextOp → Bool
  | .write w => 0 < (G.objects w.slot).activeBorrows
  | _ => true

/-- A scheduling choice: a context's operation, a call of the owner that is one step, a
maintenance call of the owner, or the next step of the one under way. -/
inductive Action where
  | context (o : ContextOp)
  | owner (o : Op)
  | call (c : Call)
  | advance

/-- A single operation as a step of the machine: what it completes, and the state it leaves. -/
def complete (G : GlobalState) (o : Op) : List Event × GlobalState :=
  (completed (o, reply G o), step G o)

/-- The owner's next step inside a maintenance call. -/
def advance (G : GlobalState) : Owner → List Event × Machine
  | .idle => ([], ⟨G, .idle⟩)
  | .armed c L =>
    match planCall G L c with
    | .error e => ([], ⟨G, .failed c L e⟩)
    | .ok (todo, met) => ([], ⟨G, .working c L met todo⟩)
  | .working c L met (m :: todo) => ([], ⟨m.run G, .working c L met todo⟩)
  | .working c L met [] => (completed (c.op, c.success L met), ⟨commitCall G L c, .idle⟩)
  | .failed c L e => ([], ⟨restoreCall G L e c, .idle⟩)

/-- One step of the machine: the calls that complete with `Ok`, and the machine it leaves.  While
a maintenance call is under way its owner does nothing else. -/
def Machine.next (M : Machine) : Action → List Event × Machine
  | .context o =>
    if o.allowed M.state then
      ((complete M.state o.op).1, ⟨(complete M.state o.op).2, M.owner⟩)
    else ([], M)
  | .owner o =>
    match M.owner with
    | .idle => ((complete M.state o).1, ⟨(complete M.state o).2, .idle⟩)
    | _ => ([], M)
  | .call c =>
    match M.owner with
    | .idle =>
      match armCall M.state c with
      | (.ok, L, G) => ([], ⟨G, .armed c L⟩)
      | (_, _, G) => ([], ⟨G, .idle⟩)
    | _ => ([], M)
  | .advance => advance M.state M.owner

end PondMerge
