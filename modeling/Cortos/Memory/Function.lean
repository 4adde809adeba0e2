import Mathlib.Logic.Function.Basic
import Cortos.Lib.Transition

/-!
# Callables and where they are stored (`function.hpp`)

A `Function` holds one callable or none, behind a table of functions generated for the type of
the callable. The callable is in the buffer of the `Function` or on the heap; the two share a
union, and which of them it is only the table knows.

Any number of `Function`s of one type are modelled together. Memory is explicit: what the union
holds, the heap, and the record of the callable objects that have been constructed (they are
numbered) and destroyed. Reading a member of the union that is not there, or an object that is
not there or of another type, is `undefined`.

A callable has a type, whose size is known, and a value. Running it gives a result and may
change the value. A move constructor gives the new object the value of the old one. Constructors,
destructors and calls of callables do nothing to `Function`s themselves.

- `Store.step`: the operations, as the source does them;
- `Slots`: what they are for: each `Function` is an optional callable.
-/

namespace Cortos.Memory

open Lib

/-- `HeapPolicy`. -/
inductive HeapPolicy where
  | noHeap
  | canUseHeap
  | mustUseHeap
  deriving DecidableEq, Repr

/-- The template arguments of `Function` other than the signature. -/
structure FunctionType where
  inlineSize : Nat
  policy : HeapPolicy
  deriving DecidableEq, Repr

namespace FunctionType

variable (T : FunctionType)

/-- `AllowHeap`. -/
def allowHeap : Bool := T.policy != .noHeap

/-- `ForceHeap`. -/
def forceHeap : Bool := T.policy == .mustUseHeap

/-- `NeedsHeapForSize`, for a callable of `size` bytes. -/
def needsHeapForSize (size : Nat) : Bool := !decide (size ≤ T.inlineSize)

/-- `UseHeap`. -/
def useHeap (size : Nat) : Bool := T.forceHeap || T.needsHeapForSize size

/-- The static assertion of `emplace`: the program compiles. -/
def compiles (size : Nat) : Bool := !T.needsHeapForSize size || T.allowHeap

end FunctionType

/-- The callables of a program: their types `γ`, their values `ν`, and what running one on
arguments `α` returns. -/
structure Callables (γ ν α ρ : Type) where
  size : γ → Nat
  invoke : γ → ν → α → ρ × ν

/-- A callable object in memory. -/
structure CallableObject (γ ν : Type) where
  /-- Objects are numbered in the order in which they are constructed. -/
  id : Nat
  type : γ
  value : ν
  deriving DecidableEq, Repr

/-- The callable that an object is. -/
def CallableObject.callable {γ ν : Type} (o : CallableObject γ ν) : γ × ν := (o.type, o.value)

/-- `VTableImpl<F, Heap>::table`. -/
structure VTable (γ : Type) where
  type : γ
  heap : Bool
  deriving DecidableEq, Repr

/-- The union `Storage`, by the member that is there. -/
inductive Storage (γ ν : Type) where
  | raw
  | inlineStorage (o : CallableObject γ ν)
  | heapPtr (p : Option Nat)
  deriving DecidableEq, Repr

/-- A `Function`. -/
structure FunctionObject (γ ν : Type) where
  vtable : Option (VTable γ) := none
  storage : Storage γ ν := .raw
  deriving DecidableEq, Repr

/-- `operator bool`. -/
def FunctionObject.operatorBool {γ ν : Type} (f : FunctionObject γ ν) : Bool := f.vtable.isSome

/-- Why an operation is not carried out: it cannot be written down (there is no such `Function`,
there is one already, the callable does not compile, or the address that `new` is said to return
is in use), or the source has no defined behaviour. -/
inductive FunctionFault where
  | disabled
  | undefined
  deriving DecidableEq, Repr

/-- The `Function`s by their addresses, and the memory of the callables. -/
structure Store (γ ν ρ : Type) where
  object : Nat → Option (FunctionObject γ ν) := fun _ => none
  heap : Nat → Option (CallableObject γ ν) := fun _ => none
  /-- How many callable objects have been constructed. -/
  constructed : Nat := 0
  /-- Those that have been destroyed. -/
  destroyed : List Nat := []
  /-- What the calls have returned. -/
  output : List ρ := []

/-! ## The operations -/

variable {γ ν α ρ : Type}

/-- Where `VTableImpl::get` looks, and what is there. -/
def VTable.find (vt : VTable γ) (heap : Nat → Option (CallableObject γ ν)) :
    Storage γ ν → Option (CallableObject γ ν)
  | .raw => none
  | .inlineStorage o => if vt.heap then none else some o
  | .heapPtr p => if vt.heap then p.bind heap else none

/-- `VTableImpl::get`: an object of the type that the table is for. -/
def VTable.get [DecidableEq γ] (vt : VTable γ) (heap : Nat → Option (CallableObject γ ν))
    (storage : Storage γ ν) : Except FunctionFault (CallableObject γ ν) :=
  match vt.find heap storage with
  | some o => if o.type = vt.type then .ok o else .error .undefined
  | none => .error .undefined

namespace Store

/-- The `Function` at address `i`. -/
def function (s : Store γ ν ρ) (i : Nat) : Except FunctionFault (FunctionObject γ ν) :=
  match s.object i with
  | some f => .ok f
  | none => .error .disabled

def setFunction (s : Store γ ν ρ) (i : Nat) (f : FunctionObject γ ν) : Store γ ν ρ :=
  { s with object := Function.update s.object i (some f) }

variable [DecidableEq γ]

/-- `VTableImpl::destroy` on the `Function` at `i`. -/
def vtableDestroy (s : Store γ ν ρ) (vt : VTable γ) (i : Nat) :
    Except FunctionFault (Store γ ν ρ) := do
  let f ← s.function i
  if vt.heap then
    match f.storage with
    | .heapPtr none => return s
    | .heapPtr (some p) =>
      let o ← vt.get s.heap f.storage
      return { s.setFunction i { f with storage := .heapPtr none } with
        heap := Function.update s.heap p none
        destroyed := s.destroyed ++ [o.id] }
    | _ => .error .undefined
  else
    let o ← vt.get s.heap f.storage
    return { s.setFunction i { f with storage := .raw } with
      destroyed := s.destroyed ++ [o.id] }

/-- `reset`. -/
def reset (s : Store γ ν ρ) (i : Nat) : Except FunctionFault (Store γ ν ρ) := do
  let f ← s.function i
  match f.vtable with
  | none => return s
  | some vt =>
    let s ← s.vtableDestroy vt i
    let f ← s.function i
    return s.setFunction i { f with vtable := none }

/-- The part of `VTableImpl::move` that moves the callable from `src` to `dst`: the pointer, or
a new object constructed from the old one, which is then destroyed. -/
def moveCallable (s : Store γ ν ρ) (vt : VTable γ) (dst src : Nat) :
    Except FunctionFault (Store γ ν ρ) := do
  let f ← s.function dst
  let g ← s.function src
  if vt.heap then
    match g.storage with
    | .heapPtr p =>
      return (s.setFunction dst { f with storage := .heapPtr p }).setFunction src
        { g with storage := .heapPtr none }
    | _ => .error .undefined
  else
    let o ← vt.get s.heap g.storage
    let new := { o with id := s.constructed }
    return { (s.setFunction dst { f with storage := .inlineStorage new }).setFunction src
        { g with storage := .raw } with
      constructed := s.constructed + 1
      destroyed := s.destroyed ++ [o.id] }

/-- `VTableImpl::move`. -/
def vtableMove (s : Store γ ν ρ) (vt : VTable γ) (dst src : Nat) :
    Except FunctionFault (Store γ ν ρ) := do
  let s ← s.moveCallable vt dst src
  let f ← s.function dst
  let g ← s.function src
  return (s.setFunction dst { f with vtable := g.vtable }).setFunction src
    { g with vtable := none }

/-- `move_from`. -/
def moveFrom (s : Store γ ν ρ) (dst src : Nat) : Except FunctionFault (Store γ ν ρ) := do
  let g ← s.function src
  match g.vtable with
  | none =>
    let f ← s.function dst
    return s.setFunction dst { f with vtable := none }
  | some vt => s.vtableMove vt dst src

/-- The end of `emplace`: a callable is constructed, at address `p` if it is on the heap. -/
def place (T : FunctionType) (K : Callables γ ν α ρ) (s : Store γ ν ρ) (i : Nat) (F : γ) (v : ν)
    (p : Nat) : Except FunctionFault (Store γ ν ρ) :=
  let o := { id := s.constructed, type := F, value := v }
  if T.useHeap (K.size F) then
    if (s.heap p).isSome then .error .disabled
    else return { s.setFunction i ⟨some ⟨F, true⟩, .heapPtr (some p)⟩ with
      heap := Function.update s.heap p (some o)
      constructed := s.constructed + 1 }
  else return { s.setFunction i ⟨some ⟨F, false⟩, .inlineStorage o⟩ with
    constructed := s.constructed + 1 }

/-- `emplace`. -/
def emplace (T : FunctionType) (K : Callables γ ν α ρ) (s : Store γ ν ρ) (i : Nat) (F : γ)
    (v : ν) (p : Nat) : Except FunctionFault (Store γ ν ρ) :=
  if T.compiles (K.size F) then do
    let s ← s.reset i
    s.place T K i F v p
  else .error .disabled

/-- The callable that the table points to has changed. -/
def put (s : Store γ ν ρ) (i : Nat) (f : FunctionObject γ ν) (o : CallableObject γ ν) :
    Store γ ν ρ :=
  match f.storage with
  | .heapPtr (some p) => { s with heap := Function.update s.heap p (some o) }
  | _ => s.setFunction i { f with storage := .inlineStorage o }

/-- `operator()`. -/
def invoke (K : Callables γ ν α ρ) (s : Store γ ν ρ) (i : Nat) (x : α) :
    Except FunctionFault (Store γ ν ρ) := do
  let f ← s.function i
  match f.vtable with
  | none => .error .undefined
  | some vt =>
    let o ← vt.get s.heap f.storage
    let (r, v) := K.invoke o.type o.value x
    return { s.put i f { o with value := v } with output := s.output ++ [r] }

end Store

/-- An operation on the `Function`s at the addresses it names. -/
inductive FunctionOp (γ ν α : Type) where
  /-- `Function()` and `Function(nullptr)`. -/
  | default (i : Nat)
  /-- `Function(F&&)`; `new`, if it is called, returns address `p`. -/
  | construct (i : Nat) (F : γ) (v : ν) (p : Nat)
  | emplace (i : Nat) (F : γ) (v : ν) (p : Nat)
  /-- `Function(Function&&)`. -/
  | moveConstruct (i j : Nat)
  /-- `operator=(Function&&)`. -/
  | moveAssign (i j : Nat)
  | reset (i : Nat)
  | invoke (i : Nat) (x : α)
  /-- `~Function`. -/
  | destroy (i : Nat)
  deriving DecidableEq, Repr

namespace Store

variable [DecidableEq γ] (T : FunctionType) (K : Callables γ ν α ρ)

/-- A `Function` comes into being at a free address. -/
def create (s : Store γ ν ρ) (i : Nat) : Except FunctionFault (Store γ ν ρ) :=
  if (s.object i).isSome then .error .disabled else .ok (s.setFunction i {})

/-- One operation. -/
def step (s : Store γ ν ρ) : FunctionOp γ ν α → Except FunctionFault (Store γ ν ρ)
  | .default i => s.create i
  | .construct i F v p => do
    let s ← s.create i
    s.emplace T K i F v p
  | .emplace i F v p => s.emplace T K i F v p
  | .moveConstruct i j => do
    let _ ← s.function j
    let s ← s.create i
    s.moveFrom i j
  | .moveAssign i j => do
    let _ ← s.function i
    let _ ← s.function j
    if i = j then return s
    else
      let s ← s.reset i
      s.moveFrom i j
  | .reset i => s.reset i
  | .invoke i x => s.invoke K i x
  | .destroy i => do
    let s ← s.reset i
    return { s with object := Function.update s.object i none }

end Store

/-- Programs that use `Function`s of one type. -/
def functions [DecidableEq γ] (T : FunctionType) (K : Callables γ ν α ρ) :
    Lts (Store γ ν ρ) (FunctionOp γ ν α) FunctionFault where
  init s := s = {}
  step := Store.step T K

/-- The operation can be written down: the `Function`s it is about exist, those it constructs
do not, the callable compiles, `new` returns an address that is free by then, and an empty
`Function` is not called. -/
def FunctionOp.Fits (T : FunctionType) (K : Callables γ ν α ρ) (s : Store γ ν ρ) :
    FunctionOp γ ν α → Prop
  | .default i => s.object i = none
  | .construct i F _ p => s.object i = none ∧ T.compiles (K.size F) = true ∧
    (T.useHeap (K.size F) = true → s.heap p = none)
  | .emplace i F _ p => ∃ f, s.object i = some f ∧ T.compiles (K.size F) = true ∧
    (T.useHeap (K.size F) = true → s.heap p = none ∨ f.storage = .heapPtr (some p))
  | .moveConstruct i j => s.object i = none ∧ ∃ g, s.object j = some g
  | .moveAssign i j => (∃ f, s.object i = some f) ∧ ∃ g, s.object j = some g
  | .reset i | .destroy i => ∃ f, s.object i = some f
  | .invoke i _ => ∃ f, s.object i = some f ∧ f.operatorBool = true

/-! ## Optional callables -/

/-- What a program sees: at each address no `Function`, an empty one or one with a callable. -/
@[ext]
structure Slots (γ ν ρ : Type) where
  slot : Nat → Option (Option (γ × ν))
  output : List ρ

namespace Slots

def set (a : Slots γ ν ρ) (i : Nat) (c : Option (γ × ν)) : Slots γ ν ρ :=
  { a with slot := Function.update a.slot i (some c) }

/-- The callable of `j` goes to `i`. -/
def move (a : Slots γ ν ρ) (i j : Nat) : Slots γ ν ρ :=
  (a.set i ((a.slot j).getD none)).set j none

/-- What an operation is for. -/
def apply (K : Callables γ ν α ρ) (a : Slots γ ν ρ) : FunctionOp γ ν α → Slots γ ν ρ
  | .default i | .reset i => a.set i none
  | .construct i F v _ | .emplace i F v _ => a.set i (some (F, v))
  | .moveConstruct i j => a.move i j
  | .moveAssign i j => if i = j then a else a.move i j
  | .invoke i x =>
    match a.slot i with
    | some (some (F, v)) => { a.set i (some (F, (K.invoke F v x).2)) with
        output := a.output ++ [(K.invoke F v x).1] }
    | _ => a
  | .destroy i => { a with slot := Function.update a.slot i none }

end Slots

/-! ## What a `Function` holds -/

/-- The callable object of a `Function`. -/
def FunctionObject.target [DecidableEq γ] (f : FunctionObject γ ν)
    (heap : Nat → Option (CallableObject γ ν)) : Option (CallableObject γ ν) :=
  f.vtable.bind fun vt => (vt.get heap f.storage).toOption

/-- The callable object of the `Function` at `i`. -/
def Store.target [DecidableEq γ] (s : Store γ ν ρ) (i : Nat) : Option (CallableObject γ ν) :=
  (s.object i).bind fun f => f.target s.heap

/-- The store as optional callables. -/
def Store.view [DecidableEq γ] (s : Store γ ν ρ) : Slots γ ν ρ where
  slot i := (s.object i).map fun _ => (s.target i).map CallableObject.callable
  output := s.output

end Cortos.Memory
