import SvmActivation.Register

namespace SvmActivation

/-- An allocator of frames that hands out what it is told to. -/
structure Allocator where
  /-- What the next requests are answered with; `none` stands for exhaustion. -/
  queue : List (Option Address)
  recycle : Bool
  /-- The frames that are out, one entry for each time a frame was handed out. -/
  live : List Address
  freed : List Address
  requests : Nat
  badReturns : Nat

namespace Allocator

def fresh : Allocator where
  queue := []
  recycle := false
  live := []
  freed := []
  requests := 0
  badReturns := 0

def answer (a : Allocator) : Option Address :=
  a.queue.head?.join

def afterRequest (a : Allocator) : Allocator :=
  { a with
    queue := a.queue.tail
    live := a.answer.toList ++ a.live
    requests := a.requests + 1 }

def giveBack (a : Allocator) (frame : Address) : Allocator :=
  if frame ∈ a.live then
    { a with
      queue := a.queue ++ if a.recycle then [some frame] else []
      live := a.live.erase frame
      freed := a.freed ++ [frame] }
  else
    { a with badReturns := a.badReturns + 1 }

end Allocator

/-- The bytes from the start of a page on, those behind the page included. -/
abbrev PageBytes := Nat → Byte

namespace PageBytes

def storeByte (bytes : PageBytes) (offset : Nat) (b : Byte) : PageBytes :=
  fun i => if i = offset then b else bytes i

/-- Fills the page and leaves what lies behind it. -/
def fill (bytes : PageBytes) (b : Byte) : PageBytes :=
  fun i => if i < pageSize then b else bytes i

def loadWord (bytes : PageBytes) (offset : Nat) : Word :=
  .ofBytes fun i => bytes (offset + i)

def storeWord (bytes : PageBytes) (offset : Nat) (w : Word) : PageBytes :=
  fun i => if offset ≤ i ∧ i < offset + 8 then w.byte (i - offset) else bytes i

def storeWords (bytes : PageBytes) (stores : List (Nat × Word)) : PageBytes :=
  stores.foldl (fun bytes store => bytes.storeWord store.1 store.2) bytes

end PageBytes

/-- The memory at the addresses that were touched so far, and what the rest holds. -/
structure Memory where
  touched : Address → Option PageBytes
  filler : Byte

namespace Memory

def fresh : Memory where
  touched := fun _ => none
  filler := 0xa5

/-- How many bytes belong to an address: its page and sixteen bytes behind it. -/
def span : Nat := pageSize + 16

def bytes (m : Memory) (page : Address) : PageBytes :=
  (m.touched page).getD fun _ => m.filler

def put (m : Memory) (page : Address) (bytes : PageBytes) : Memory :=
  { m with touched := fun a => if a = page then some bytes else m.touched a }

/-- An access fixes what the address holds, also one that only reads. -/
def touch (m : Memory) (page : Address) : Memory :=
  m.put page (m.bytes page)

def update (m : Memory) (page : Address) (change : PageBytes → PageBytes) : Memory :=
  m.put page (change (m.bytes page))

def runs (m : Memory) (page : Address) : List (Byte × Nat) :=
  let bytes := m.bytes page
  ((List.range span).map bytes).foldr extend []
where
  extend (b : Byte) : List (Byte × Nat) → List (Byte × Nat)
    | [] => [(b, 1)]
    | (c, n) :: rest => if b = c then (c, n + 1) :: rest else (b, 1) :: (c, n) :: rest

end Memory

end SvmActivation
