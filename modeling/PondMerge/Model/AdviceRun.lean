import PondMerge.Model.Run
import PondMerge.Model.Advice

/-!
Runs with advice: the public operations between `init` and `deinit`, the setting of thresholds,
and the calls of `analyze_compaction` and `poll_compaction_advice`.
-/

namespace PondMerge

variable [PmConfig]

/-- `deinit`. -/
def deinit (G : GlobalState) : Status × GlobalState :=
  if !G.initialized then (.notInitialized, G)
  else if G.liveObjectCount ≠ 0 then (.busy, G)
  else (.ok, { GlobalState.zero with mem := G.mem })

/-- The library with its advice.  `told` records, for every pool, the advice its caller was last
given since `init`, and the state it was about. -/
structure AdviceRun where
  state : GlobalState
  advice : AdviceState
  told : ℕ → Option (GlobalState × CompactionAdvice)

/-- A step of such a run. -/
inductive AdviceOp where
  | init (cfg : InitConfig)
  | deinit
  | op (op : Op)
  | setThresholds (t : CompactionThresholds)
  | analyze (pool : ℕ) (expected : Option CompactionRequest)
  | poll (pool : ℕ) (expected : Option CompactionRequest)

namespace AdviceRun

/-- The run behind a successful `init`: the cache is reset, the thresholds are kept. -/
def start (G : GlobalState) (A : AdviceState) : AdviceRun :=
  ⟨G, { A with cache := fun _ => .zero }, fun _ => none⟩

/-- A caller is told an advice; an `INVALID_REQUEST` does not count. -/
def tell (R : AdviceRun) (p : ℕ) (a : CompactionAdvice) (A : AdviceState) : AdviceRun :=
  { R with
    advice := A
    told := if a.verdict = .invalidRequest then R.told
      else Function.update R.told p (some (R.state, a)) }

/-- The run a step leaves. -/
def step (R : AdviceRun) : AdviceOp → AdviceRun
  | .init cfg =>
    if (PondMerge.init R.state cfg).1 = .ok then
      start (PondMerge.init R.state cfg).2 R.advice
    else R
  | .deinit => { R with state := (PondMerge.deinit R.state).2 }
  | .op op => { R with state := PondMerge.step R.state op }
  | .setThresholds t => { R with advice := { R.advice with thresholds := t } }
  | .analyze p expected =>
    let r := analyzeCompaction R.state R.advice p expected
    R.tell p r.1 r.2
  | .poll p expected =>
    let r := pollCompactionAdvice R.state R.advice p expected
    R.tell p r.1 r.2.2

end AdviceRun

/-- The runs from a successful `init` over any bytes and any zone, with any thresholds. -/
inductive AdviceReachable : AdviceRun → Prop where
  | start (G : GlobalState) (cfg : InitConfig) (A : AdviceState) (h : (init G cfg).1 = .ok) :
      AdviceReachable (.start (init G cfg).2 A)
  | step {R : AdviceRun} (op : AdviceOp) : AdviceReachable R → AdviceReachable (R.step op)

lemma AdviceReachable.steps {R : AdviceRun} (h : AdviceReachable R) (ops : List AdviceOp) :
    AdviceReachable (ops.foldl AdviceRun.step R) := by
  induction ops generalizing R with
  | nil => exact h
  | cons op ops ih => exact ih (h.step op)

end PondMerge
