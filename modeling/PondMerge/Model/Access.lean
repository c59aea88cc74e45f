import PondMerge.Model.Interleaving

/-!
The typed layer of `pondmerge.hpp`: logical pointers, RAII borrows, and typed allocation.

A C++ object that is destroyed leaves a null `pm_access` in its place, which does nothing any more,
as one that has been moved from.  A constructor writes the bytes of its object.
-/

namespace PondMerge

/-- What the layer knows of a C++ object type: `sizeof(T)` and `alignof(T)`. -/
structure CType where
  size : ℕ
  align : ℕ
  size_pos : 1 ≤ size
  size_lt : size < 2 ^ 32
  align_pow : align ≠ 0 ∧ align &&& (align - 1) = 0

/-! ### `pm_ptr_impl` -/

/-- `pm_ptr_impl<T, Cross>`, by its reference.  A local pointer with `CROSS_HINT` is invalid. -/
structure PmPtr (cross : Bool) where
  ref : RawRef
  bound : cross = false → ref.poolHint = crossHint → ref.generation = 0

namespace PmPtr

variable {cross : Bool}

/-- The default constructor. -/
def null : PmPtr cross := ⟨.null, fun _ _ => rfl⟩

/-- The constructor from a raw reference. -/
def ofRef (cross : Bool) (r : RawRef) : PmPtr cross :=
  if h : cross = false ∧ r.poolHint = crossHint then ⟨{ r with generation := 0 }, fun _ _ => rfl⟩
  else ⟨r, fun hc hh => absurd ⟨hc, hh⟩ h⟩

end PmPtr

/-- `pm_cross_ref`. -/
def pmCrossRef (r : RawRef) : PmPtr true := .ofRef true { r with poolHint := crossHint }

/-! ### `pm_access` -/

/-- `pm_access<T>`: the reference it has borrowed, and its pointer, `none` for `nullptr`. -/
structure PmAccess where
  type : CType
  ref : RawRef
  ptr : Option ℕ

namespace PmAccess

/-- The default constructor. -/
def null (T : CType) : PmAccess := ⟨T, .null, none⟩

/-- What the move constructor, and the destructor, leave behind. -/
def moved (a : PmAccess) : PmAccess := { a with ptr := none }

end PmAccess

variable [PmConfig]

/-- The destructor. -/
def PmAccess.drop (G : GlobalState) (a : PmAccess) : GlobalState :=
  if a.ptr.isSome then borrowEnd G a.ref else G

/-- `try_borrow`. -/
def PmPtr.tryBorrow {cross : Bool} (G : GlobalState) (p : PmPtr cross) (T : CType) :
    Status × PmAccess × GlobalState :=
  let r := borrowBegin G p.ref T.size T.align
  if r.1 ≠ .ok then (r.1, .null T, r.2.2) else (.ok, ⟨T, p.ref, some r.2.1⟩, r.2.2)

/-! ### Typed allocation -/

/-- `PM_MOVABLE`. -/
def pmMovable : ℕ := 1

omit [PmConfig] in
/-- A constructor run in place: it writes the `n` bytes of its object. -/
def construct (G : GlobalState) (addr n : ℕ) (image : ℕ → UInt8) : GlobalState :=
  { G with mem := fun z => if addr ≤ z ∧ z < addr + n then image (z - addr) else G.mem z }

/-- The end of `pm_make` and `pm_make_pinned`: the object at `r` is constructed where it resolves
to, and given up where it does not. -/
def makeAt (run : Callback) (G : GlobalState) (r : RawRef) (T : CType) (image : ℕ → UInt8) :
    Status × PmPtr false × GlobalState :=
  let q := resolve G r T.size T.align
  if q.1 ≠ .ok then (q.1, .null, (free run G r).2)
  else (.ok, .ofRef false r, construct G q.2 T.size image)

/-- `pm_make`. -/
def pmMake (run : Callback) (G : GlobalState) (pool : ℕ) (T : CType) (image : ℕ → UInt8) :
    Status × PmPtr false × GlobalState :=
  if pmMaxAlignment < T.align then (.invalidAlignment, .null, G)
  else
    let a := alloc G pool T.size T.align pmMovable 0
    if a.1 ≠ .ok then (a.1, .null, a.2.2) else makeAt run a.2.2 a.2.1 T image

/-- `pm_make_pinned`; `thunk` is `destroy_thunk<T>`. -/
def pmMakePinned (run : Callback) (thunk : ℕ) (G : GlobalState) (pool : ℕ) (T : CType)
    (image : ℕ → UInt8) : Status × PmPtr false × GlobalState :=
  if pmMaxAlignment < T.align then (.invalidAlignment, .null, G)
  else
    let a := alloc G pool T.size T.align pmPinned 0
    if a.1 ≠ .ok then (a.1, .null, a.2.2)
    else
      let d := setDestroyFn a.2.2 a.2.1 (some thunk)
      if d.1 ≠ .ok then (d.1, .null, (free run d.2 a.2.1).2)
      else makeAt run d.2 a.2.1 T image

/-- `pm_destroy`: the status, the pointer afterwards, and the state. -/
def pmDestroy {cross : Bool} (run : Callback) (G : GlobalState) (p : PmPtr cross) :
    Status × PmPtr cross × GlobalState :=
  let f := free run G p.ref
  (f.1, if f.1 = .ok then .null else p, f.2)

/-! ### Contexts with borrows -/

/-- The machine and the `pm_access` objects of all contexts. -/
structure Session where
  machine : Machine
  accesses : List PmAccess

/-- What a context, or the owner, does next.  All borrows are `pm_access` objects; a context writes
through the pointers of those. -/
inductive ClientAction where
  | tryBorrow (cross : Bool) (p : PmPtr cross) (T : CType)
  | move (k : ℕ)
  | drop (k : ℕ)
  | store (k j : ℕ) (v : UInt8)
  | pause (id : ℕ)
  | resume (id : ℕ)
  | owner (o : Op)
  | call (c : Call)
  | advance

/-- The state changes, and no step of the owner is taken. -/
def Session.setState (s : Session) (G : GlobalState) : Session :=
  { s with machine := { s.machine with state := G } }

/-- One step. -/
def Session.next (s : Session) : ClientAction → Session
  | .tryBorrow _ p T =>
    let r := p.tryBorrow s.machine.state T
    { s.setState r.2.2 with accesses := s.accesses ++ [r.2.1] }
  | .move k =>
    match s.accesses[k]? with
    | none => s
    | some a => { s with accesses := s.accesses.set k a.moved ++ [a] }
  | .drop k =>
    match s.accesses[k]? with
    | none => s
    | some a =>
      { s.setState (a.drop s.machine.state) with accesses := s.accesses.set k a.moved }
  | .store k j v =>
    match s.accesses[k]? with
    | none => s
    | some a =>
      match a.ptr with
      | none => s
      | some addr =>
        if j < a.type.size then
          s.setState { s.machine.state with
            mem := Function.update s.machine.state.mem (addr + j) v }
        else s
  | .pause id => s.setState (pause s.machine.state id).2
  | .resume id => s.setState (resume s.machine.state id).2
  | .owner o => { s with machine := (s.machine.next (.owner o)).2 }
  | .call c => { s with machine := (s.machine.next (.call c)).2 }
  | .advance => { s with machine := (s.machine.next .advance).2 }

end PondMerge
