import Mathlib.Algebra.Group.Int.Defs
import Mathlib.Logic.Function.Basic
import LbRpc.Base.Heap
import LbRpc.Reactor.BufPool

/-!
# The buffer pool with its pointers

`BufPool` and `ReactorBuf` once more, as the source has them: buffers live on a heap, the
free list of a class is threaded through `IOBuf::next`, and a `ReactorBuf` holds a
pointer. `BufPool` hands buffers around as values.

* `new`: the constructor with its preallocated lists.
* `allocBuf`, `revert`: taking a buffer off its list and putting it back.
* `BufCall`: the calls on an `InputBuf` or `OutputBuf`, cut where they give up the lock.
* `PoolUsers.step`: a turn of one of any number of objects.
-/

namespace LbRpc

/-- An `IOBuf*`. -/
abbrev BufAddr := ℕ

/-- An `IOBuf` object. -/
structure BufNode where
  buf : IOBuf
  next : Option BufAddr

structure PoolHeap where
  heap : Heap BufNode
  /-- `_pool`: the head of each free list -/
  pool : MemCap → Option BufAddr
  totalMem : ℤ

namespace PoolHeap

/-- The loop of the constructor: `n` more buffers, each linked behind the one before. -/
def appendBufs (c : MemCap) (junk : ℤ → UInt8) : ℕ → BufAddr → Heap BufNode → Heap BufNode
  | 0, _, h => h
  | n + 1, prev, h =>
    appendBufs c junk n h.next
      ((h.alloc ⟨.new c.size junk, none⟩).modify prev fun b => { b with next := some h.next })

/-- The part of the constructor for one class: `n + 1` buffers. -/
def addClass (c : MemCap) (n : ℕ) (junk : ℤ → UInt8) (p : PoolHeap) : PoolHeap where
  heap := appendBufs c junk n p.heap.next (p.heap.alloc ⟨.new c.size junk, none⟩)
  pool := Function.update p.pool c (some p.heap.next)
  totalMem := p.totalMem + c.size / 1024 * (n + 1)

/-- A pool before its constructor runs. -/
def bare : PoolHeap := ⟨Heap.empty, fun _ => none, 0⟩

/-- The constructor. -/
def new (junk : ℤ → UInt8) : PoolHeap :=
  ((((((bare.addClass .m4K 4999 junk).addClass .m16K 999 junk).addClass .m64K 499 junk).addClass
    .m256K 199 junk).addClass .m1M 49 junk).addClass .m4M 19 junk).addClass .m8M 9 junk

/-- `BufPool::alloc_buf`. -/
def allocBuf (n : ℤ) (junk : ℤ → UInt8) (p : PoolHeap) : Except Crash (Option BufAddr × PoolHeap) :=
  match BufPool.index n with
  | none => .ok (none, p)
  | some c =>
    match p.pool c with
    | none =>
      if extraMemLimit ≤ p.totalMem + c.size / 1024 then .error .memoryLimit
      else
        .ok (some p.heap.next,
          { p with
            heap := p.heap.alloc ⟨.new c.size junk, none⟩
            totalMem := p.totalMem + c.size / 1024 })
    | some target =>
      match p.heap.read target with
      | none => .error .outOfBounds
      | some b =>
        .ok (some target,
          { p with
            pool := Function.update p.pool c b.next
            heap := p.heap.modify target fun b => { b with next := none } })

/-- The class with this capacity. -/
def classOf (capacity : ℤ) : Option MemCap :=
  [MemCap.m4K, .m16K, .m64K, .m256K, .m1M, .m4M, .m8M].find? (·.size = capacity)

/-- `BufPool::revert`. -/
def revert (a : BufAddr) (p : PoolHeap) : Except Crash PoolHeap :=
  match p.heap.read a with
  | none => .error .outOfBounds
  | some b =>
    match classOf b.buf.capacity with
    | none => .error .assertFail
    | some c =>
      .ok { p with
        heap := p.heap.modify a fun b => ⟨b.buf.clear, p.pool c⟩
        pool := Function.update p.pool c (some a) }

/-- Change the buffer behind a pointer. -/
def setBuf (a : BufAddr) (b : IOBuf) (p : PoolHeap) : PoolHeap :=
  { p with heap := p.heap.modify a fun n => { n with buf := b } }

/-- The buffer behind a pointer. -/
def buf (a : BufAddr) (p : PoolHeap) : Except Crash IOBuf :=
  match p.heap.read a with
  | none => .error .outOfBounds
  | some n => .ok n.buf

/-- `ReactorBuf::pop`. -/
def pop (len : ℤ) (rb : Option BufAddr) (p : PoolHeap) : Except Crash (Option BufAddr × PoolHeap) :=
  match rb with
  | none => .error .assertFail
  | some a => do
    let b ← p.buf a
    if len ≤ b.length then
      let p := p.setBuf a (b.pop len)
      if (b.pop len).length = 0 then return (none, ← p.revert a) else return (some a, p)
    else .error .assertFail

/-- `ReactorBuf::clear`, which is also the destructor. -/
def clear (rb : Option BufAddr) (p : PoolHeap) : Except Crash (Option BufAddr × PoolHeap) :=
  match rb with
  | none => .ok (none, p)
  | some a => do return (none, ← p.revert a)

/-- `InputBuf::adjust`. -/
def adjust (rb : Option BufAddr) (p : PoolHeap) : Except Crash (Option BufAddr × PoolHeap) :=
  match rb with
  | none => .ok (none, p)
  | some a => do
    let b ← p.buf a
    return (some a, p.setBuf a (← b.adjust))

/-- How far the first half of a `read_data` or `send_data` gets in one go. -/
inductive Reserved
  /-- the pool has no buffer that large -/
  | full
  /-- the pointer has room -/
  | ready (a : BufAddr)
  /-- a larger buffer is taken, and the one so far is not given back yet -/
  | larger (a : BufAddr)

/-- The first half of `read_data` and of `send_data`, up to the return of `alloc_buf`: room
for `n` more bytes is wanted. A sum beyond `int` is undefined. -/
def reserve (n : ℤ) (junk : ℤ → UInt8) (rb : Option BufAddr) (p : PoolHeap) :
    Except Crash (Reserved × PoolHeap) :=
  match rb with
  | none => do
    match ← p.allocBuf n junk with
    | (none, p) => return (.full, p)
    | (some a, p) => return (.ready a, p)
  | some a => do
    let b ← p.buf a
    if b.head ≠ 0 then .error .assertFail
    else if b.capacity - b.length < n then
      if 2 ^ 31 ≤ n + b.length then .error .outOfBounds
      else
        match ← p.allocBuf (n + b.length) junk with
        | (none, p) => return (.full, p)
        | (some new_buf, p) => return (.larger new_buf, p)
    else return (.ready a, p)

/-- The bytes so far move to the larger buffer. -/
def copyTo (a new_buf : BufAddr) (p : PoolHeap) : Except Crash PoolHeap := do
  return p.setBuf new_buf (← (← p.buf new_buf).copy (← p.buf a))

/-- The end of `read_data`, with room for the `need_read` bytes. -/
def readFill (need_read : ℤ) (got : Option (List UInt8)) (a : BufAddr) (p : PoolHeap) :
    Except Crash PoolHeap :=
  match got with
  | none => .ok p
  | some bs =>
    if bs = [] then .ok p
    else if need_read ≠ 0 ∧ bs.length ≠ need_read then .error .assertFail
    else do return p.setBuf a (← (← p.buf a).append bs)

/-- The end of `send_data`. -/
def sendFill (bs : List UInt8) (a : BufAddr) (p : PoolHeap) : Except Crash PoolHeap := do
  return p.setBuf a (← (← p.buf a).append bs)

/-- `OutputBuf::write2fd`; `room` as in `ReactorBuf.write2fd`. The buffer stays held when
it gets empty. -/
def write2fd (room : Option ℕ) (rb : Option BufAddr) (p : PoolHeap) :
    Except Crash (Option BufAddr × PoolHeap) :=
  match rb with
  | none => .error .assertFail
  | some a => do
    let b ← p.buf a
    if b.head ≠ 0 then .error .assertFail
    else
      match room with
      | none => return (some a, p)
      | some room =>
        let taken ← b.peek (min room b.length.toNat)
        if taken = [] then return (some a, p)
        else return (some a, p.setBuf a (← (b.pop taken.length).adjust))

end PoolHeap

/-- A call on an `InputBuf` or `OutputBuf`. -/
inductive BufCall
  | pop (len : ℤ)
  | clear
  | adjust
  | readData (fionread : Option ℤ) (got : Option (List UInt8)) (junk : ℤ → UInt8)
  | sendData (bs : List UInt8) (junk : ℤ → UInt8)
  | write2fd (room : Option ℕ)

namespace BufCall

/-- A call is over, or it goes on with the larger buffer it took. -/
inductive Begun
  | ended (rb : Option BufAddr)
  | larger (new_buf : BufAddr)

/-- What is left to do once the pointer has room. -/
def fill : BufCall → BufAddr → PoolHeap → Except Crash PoolHeap
  | .readData (some need_read) got _, a, p => p.readFill need_read got a
  | .sendData bs _, a, p => p.sendFill bs a
  | _, _, p => .ok p

/-- `read_data` and `send_data` up to their second use of the pool. A request that gets no
buffer leaves the pointer as it was. -/
def beginFill (e : BufCall) (n : ℤ) (junk : ℤ → UInt8) (rb : Option BufAddr) (p : PoolHeap) :
    Except Crash (Begun × PoolHeap) := do
  match ← p.reserve n junk rb with
  | (.full, p) => return (.ended rb, p)
  | (.ready a, p) => return (.ended (some a), ← e.fill a p)
  | (.larger new_buf, p) => return (.larger new_buf, p)

/-- A call that uses the pool once at most. -/
def ended (r : Except Crash (Option BufAddr × PoolHeap)) : Except Crash (Begun × PoolHeap) := do
  let (rb, p) ← r
  return (.ended rb, p)

/-- A call up to its second use of the pool. -/
def start : BufCall → Option BufAddr → PoolHeap → Except Crash (Begun × PoolHeap)
  | .pop len, rb, p => ended (p.pop len rb)
  | .clear, rb, p => ended (p.clear rb)
  | .adjust, rb, p => ended (p.adjust rb)
  | .readData none _ _, rb, p => .ok (.ended rb, p)
  | .readData (some need_read) got junk, rb, p =>
    beginFill (.readData (some need_read) got junk) need_read junk rb p
  | .sendData bs junk, rb, p => beginFill (.sendData bs junk) bs.length junk rb p
  | .write2fd room, rb, p => ended (p.write2fd room rb)

/-- A call from its second use of the pool on: the buffer so far goes back. -/
def finish (e : BufCall) (a new_buf : BufAddr) (p : PoolHeap) : Except Crash PoolHeap := do
  let p ← p.copyTo a new_buf
  let p ← p.revert a
  e.fill new_buf p

end BufCall

/-- The pool and the `InputBuf` and `OutputBuf` objects `ι`. A thread has the lock of the
pool for one `alloc_buf` or `revert` at a time, so a call that makes both can be
interrupted between them. -/
structure PoolUsers (ι : Type*) where
  pool : PoolHeap
  /-- `_buf` -/
  buf : ι → Option BufAddr
  /-- the interrupted call of the object, and its `new_buf` -/
  busy : ι → Option (BufAddr × BufCall)

namespace PoolUsers

variable {ι : Type*} [DecidableEq ι]

/-- The pool is made and no object has a buffer. -/
def new (junk : ℤ → UInt8) : PoolUsers ι := ⟨.new junk, fun _ => none, fun _ => none⟩

/-- What the thread of an object does next: make a call, or go on with the one that was
interrupted. -/
inductive Turn
  | call (e : BufCall)
  | resume

/-- An object's turn. An object has one call at a time. -/
def step (s : PoolUsers ι) : ι × Turn → Except Crash (PoolUsers ι)
  | (i, .call e) =>
    match s.busy i with
    | some _ => .ok s
    | none =>
      match e.start (s.buf i) s.pool with
      | .error f => .error f
      | .ok (.ended rb, p) => .ok { s with pool := p, buf := Function.update s.buf i rb }
      | .ok (.larger new_buf, p) =>
        .ok { s with pool := p, busy := Function.update s.busy i (some (new_buf, e)) }
  | (i, .resume) =>
    match s.busy i with
    | none => .ok s
    | some (new_buf, e) =>
      match s.buf i with
      | none => .error .outOfBounds
      | some a =>
        match e.finish a new_buf s.pool with
        | .error f => .error f
        | .ok p => .ok ⟨p, Function.update s.buf i (some new_buf), Function.update s.busy i none⟩

end PoolUsers

end LbRpc
