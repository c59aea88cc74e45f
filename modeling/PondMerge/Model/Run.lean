import PondMerge.Model.Pools
import PondMerge.Model.Objects
import PondMerge.Model.MergeSplit

/-!
Runs: the public operations as steps of one transition function, with arbitrary arguments,
and the states they reach from `init`.

Client code and destroy callbacks write inside payloads only, and a callback does not
re-enter the library.
-/

namespace PondMerge

variable [PmConfig]

/-- A client's write of byte `v` at position `k` of the payload of slot `i`. -/
structure PayloadWrite where
  slot : ℕ
  pos : ℕ
  val : UInt8

/-- Writes inside the payload of an object that is alive or being destroyed; anything else
is not a write a client may make. -/
def clientWrite (G : GlobalState) (w : PayloadWrite) : GlobalState :=
  if w.slot < pmMaxObjects ∧ (G.objects w.slot).state ≠ .free
      ∧ w.pos < (G.objects w.slot).size then
    { G with mem := Function.update G.mem ((G.objects w.slot).address + w.pos) w.val }
  else G

/-- A destroy callback that makes the given writes and does not re-enter the library. -/
def writingCallback (ws : List PayloadWrite) : Callback := fun _ _ G =>
  ws.foldl clientWrite G

/-- A public operation with its arguments; `elapsed` is what the clock advances during a
compaction, and `ws` what the destroy callback of a freed object writes. -/
inductive Op where
  | createPool (segmentCount : ℕ)
  | destroyPool (id : ℕ)
  | pause (id : ℕ)
  | resume (id : ℕ)
  | alloc (pool size alignment flags userTag : ℕ)
  | free (ref : RawRef) (ws : List PayloadWrite)
  | setDestroyFn (ref : RawRef) (fn : Option ℕ)
  | borrowBegin (ref : RawRef) (accessSize accessAlign : ℕ)
  | borrowEnd (ref : RawRef)
  | compact (pool : ℕ) (req : Option CompactionRequest) (elapsed : ℕ)
  | merge (source target : ℕ)
  | split (source newSegments : ℕ)
  | write (w : PayloadWrite)

/-- The state an operation leaves. -/
def step (G : GlobalState) : Op → GlobalState
  | .createPool n => (createPool G n).2.2
  | .destroyPool id => (destroyPool G id).2
  | .pause id => (pause G id).2
  | .resume id => (resume G id).2
  | .alloc p size alignment flags tag => (alloc G p size alignment flags tag).2.2
  | .free ref ws => (free (writingCallback ws) G ref).2
  | .setDestroyFn ref fn => (setDestroyFn G ref fn).2
  | .borrowBegin ref n a => (borrowBegin G ref n a).2.2
  | .borrowEnd ref => borrowEnd G ref
  | .compact p req elapsed => (compact G p req elapsed).2.2
  | .merge s t => (merge G s t).2
  | .split s n => (split G s n).2.2
  | .write w => clientWrite G w

/-- The static storage of the library before `init`: zero bytes. -/
def GlobalState.zero : GlobalState where
  zone := 0
  zoneSize := 0
  segmentSize := 0
  segmentCount := 0
  pools := fun _ => Pool.zero
  objects := fun _ => ObjectDesc.zero
  freeSlotHead := 0
  liveObjectCount := 0
  maxLiveObjects := 0
  maxBorrowCount := 0
  maxFragmentBytes := 0
  maxBytesMoved := 0
  maxCompactTimeUs := 0
  initialized := false
  mem := fun _ => 0

/-- The state after a sequence of operations. -/
def runOps (G : GlobalState) (ops : List Op) : GlobalState := ops.foldl step G

/-- The states reachable from a successful `init` over any bytes and any zone. -/
inductive Reachable : GlobalState → Prop where
  | init (G : GlobalState) (cfg : InitConfig) (h : (init G cfg).1 = .ok) :
      Reachable (init G cfg).2
  | step {G : GlobalState} (op : Op) : Reachable G → Reachable (step G op)

lemma Reachable.runOps {G : GlobalState} (h : Reachable G) (ops : List Op) :
    Reachable (runOps G ops) := by
  induction ops generalizing G with
  | nil => exact h
  | cons op ops ih => exact ih (h.step op)

end PondMerge
