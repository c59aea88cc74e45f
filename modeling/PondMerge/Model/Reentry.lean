import PondMerge.Model.Run

/-!
Destroy callbacks that re-enter the library: what a callback does is a script of public
operations, in which a `free` comes with the script of the callback it may run.
-/

namespace PondMerge

variable [PmConfig]

/-- A finite sequence of public operations.  Where a `free` runs a destroy callback, `body` is
what this callback does; `Op.free` is the case of one that only writes. -/
inductive Script where
  | done
  | op (o : Op) (rest : Script)
  | free (ref : RawRef) (body rest : Script)

/-- The state a script leaves. -/
def Script.run : Script → GlobalState → GlobalState
  | .done, G => G
  | .op o rest, G => rest.run (step G o)
  | .free ref body rest, G => rest.run (PondMerge.free (fun _ _ F => body.run F) G ref).2

/-- The state in which a destroy callback runs. -/
def markDestroying (G : GlobalState) (i : ℕ) : GlobalState :=
  G.setObj i { G.objects i with state := .destroying }

/-- `free` has passed everything up to the callback unit, and the object has callback `fn`. -/
structure CallbackEntered (G : GlobalState) (ref : RawRef) (fn : ℕ) : Prop where
  init : G.initialized = true
  offset : ref.offset = 0
  accepted : ∃ addr, checkRef G ref 0 1 true = .ok addr
  idle : (G.objects ref.index).activeBorrows = 0
  neighbours : verifyNeighbours G (G.pools (G.objects ref.index).poolId) (G.objects ref.index)
    (G.objects ref.index).block (poolStart G (G.pools (G.objects ref.index).poolId))
    (poolEnd G (G.pools (G.objects ref.index).poolId)) = true
  callback : (G.objects ref.index).destroyFn = some fn

/-- `G₁` is a state between two operations of a script run from `G`, at whatever depth of
callbacks inside callbacks. -/
inductive Script.Visits : Script → GlobalState → GlobalState → Prop where
  | here (s : Script) (G : GlobalState) : Visits s G G
  | op {o : Op} {rest : Script} {G G₁ : GlobalState} (h : Visits rest (step G o) G₁) :
      Visits (.op o rest) G G₁
  | inside {ref : RawRef} {body rest : Script} {G G₁ : GlobalState} {fn : ℕ}
      (hfn : CallbackEntered G ref fn) (h : Visits body (markDestroying G ref.index) G₁) :
      Visits (.free ref body rest) G G₁
  | after {ref : RawRef} {body rest : Script} {G G₁ : GlobalState}
      (h : Visits rest (PondMerge.free (fun _ _ F => body.run F) G ref).2 G₁) :
      Visits (.free ref body rest) G G₁

/-- The states reachable from a successful `init` by scripts, those inside callbacks
included. -/
def Reentrant (G : GlobalState) : Prop :=
  ∃ G₀ cfg s, (init G₀ cfg).1 = .ok ∧ Script.Visits s (init G₀ cfg).2 G

/-- `free` accepts the reference, and nobody has borrowed the object. -/
def Freeable (G : GlobalState) (ref : RawRef) : Prop :=
  ref.offset = 0 ∧ (∃ addr, checkRef G ref 0 1 true = .ok addr)
    ∧ (G.objects ref.index).activeBorrows = 0

end PondMerge
