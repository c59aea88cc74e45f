import PondMerge.Model.Interleaving

/-!
What the library is for: a store of byte strings under handles.

An object is its generation, what it was allocated with and the bytes its users write.  Where it
lies, in which pool and beside what is not part of it, so maintenance does not show.

* `contents`: the store that a state stands for.
* `StoreStep`: what a call may do to a store.
-/

namespace PondMerge

open ByteMemory

/-- An object as its users see it. -/
structure StoredObject where
  generation : ℕ
  userTag : ℕ
  flags : ℕ
  destroyFn : Option ℕ
  bytes : List UInt8
  deriving DecidableEq

/-- The objects by slot. -/
abbrev Store := ℕ → Option StoredObject

namespace Store

/-- The store without objects. -/
def empty : Store := fun _ => none

/-- One byte is written; there is no effect where there is no such byte. -/
def write (s : Store) (w : PayloadWrite) : Store :=
  match s w.slot with
  | none => s
  | some o => Function.update s w.slot (some { o with bytes := o.bytes.set w.pos w.val })

/-- The writes of a destroy callback, of an object that has one. -/
def callback (s : Store) (o : StoredObject) (ws : List PayloadWrite) : Store :=
  if o.destroyFn.isSome then ws.foldl write s else s

end Store

/-! ### The store of a state -/

variable [PmConfig]

/-- The object that a descriptor holds in memory `m`. -/
def ObjectDesc.stored (m : Mem) (d : ObjectDesc) : StoredObject :=
  ⟨d.generation, d.userTag, d.flags, d.destroyFn,
    (List.range d.size).map fun k => m (d.address + k)⟩

/-- The store that a state stands for. -/
def contents (G : GlobalState) : Store := fun i =>
  if i < pmMaxObjects ∧ (G.objects i).state = .live then some ((G.objects i).stored G.mem)
  else none

/-! ### What a call does -/

/-- The operation may read or change objects when it returns `Ok`. -/
def Op.onObjects : Op → Bool
  | .alloc .. | .free .. | .setDestroyFn .. | .borrowBegin .. | .write .. => true
  | _ => false

/-- The reference names the object `o` of the store. -/
def Store.Names (s : Store) (ref : RawRef) (o : StoredObject) : Prop :=
  s ref.index = some o ∧ o.generation = ref.generation

/-- What a call that answers may have done to the store.  The bytes of an allocation are any, or
zero on request. -/
inductive StoreStep (s : Store) : Event → Store → Prop where
  | allocated (p size alignment flags tag : ℕ) (ref : RawRef) (bytes : List UInt8)
      (fresh : s ref.index = none) (valid : ref.generation ≠ 0)
      (hint : ref.poolHint = p ∧ ref.offset = 0) (length : bytes.length = size)
      (zero : flags &&& pmZeroInit ≠ 0 → ∀ v ∈ bytes, v = 0) :
      StoreStep s (.alloc p size alignment flags tag, .ref .ok ref)
        (Function.update s ref.index (some ⟨ref.generation, tag, allocFlags flags, none, bytes⟩))
  | freed (ref : RawRef) (ws : List PayloadWrite) (o : StoredObject) (named : s.Names ref o) :
      StoreStep s (.free ref ws, .status .ok) (Function.update (s.callback o ws) ref.index none)
  | destroyFnSet (ref : RawRef) (fn : Option ℕ) (o : StoredObject) (named : s.Names ref o)
      (pinned : o.flags &&& pmPinned ≠ 0) :
      StoreStep s (.setDestroyFn ref fn, .status .ok)
        (Function.update s ref.index (some { o with destroyFn := fn }))
  | borrowed (ref : RawRef) (n a addr : ℕ) (o : StoredObject) (named : s.Names ref o)
      (inside : ref.offset + n ≤ o.bytes.length) :
      StoreStep s (.borrowBegin ref n a, .address .ok addr) s
  | written (w : PayloadWrite) : StoreStep s (.write w, .written) (s.write w)
  | refused (op : Op) (r : Reply) (no : r.ok = false) (client : ∀ w, op ≠ .write w) :
      StoreStep s (op, r) s
  | unseen (op : Op) (r : Reply) (other : op.onObjects = false) : StoreStep s (op, r) s

end PondMerge
