import Mathlib.Data.BitVec
import Mathlib.Logic.Function.Basic
import McuDrivers.Library.Tiling

set_option autoImplicit false

/-! # lwIP: the heap of `mem.c`

`struct mem` headers are threaded through one array, `next` and `prev` being offsets into it. Here the
array is its bytes, a pointer is its offset from `ram`, and NULL is `none`. The build is that of the port's
`lwipopts.h`: `MEM_SIZE` is 20 KiB, so that `mem_size_t` has 16 bits, there is no other context that
frees, and no overflow check; the statistics are kept. An assertion that fails ends the call. -/

namespace Lwip

def memAlignment : Nat := 4

def memSize : Nat := 20 * 1024

/-- `LWIP_MEM_ALIGN_SIZE` -/
def lwipMemAlignSize (size : Nat) : Nat := (size + memAlignment - 1) / memAlignment * memAlignment

/-- Conversion to `mem_size_t`. -/
def memSizeT (n : Nat) : Nat := n % 2 ^ 16

def minSizeAligned : Nat := lwipMemAlignSize 12

/-- `SIZEOF_STRUCT_MEM`: two offsets and a byte, aligned. -/
def sizeofStructMem : Nat := lwipMemAlignSize 6

def memSizeAligned : Nat := lwipMemAlignSize memSize

def lwipAssert (message : String) (assertion : Prop) [Decidable assertion] : Except String Unit :=
  if assertion then .ok () else .error message

/-! ## The array -/

abbrev Ram := Nat → BitVec 8

def load16 (ram : Ram) (a : Nat) : Nat := (ram a).toNat + 256 * (ram (a + 1)).toNat

def store16 (ram : Ram) (a v : Nat) : Ram :=
  Function.update (Function.update ram a (BitVec.ofNat 8 v)) (a + 1) (BitVec.ofNat 8 (v / 256))

def memNext (ram : Ram) (mem : Nat) : Nat := load16 ram mem

def memPrev (ram : Ram) (mem : Nat) : Nat := load16 ram (mem + 2)

def memUsed (ram : Ram) (mem : Nat) : Nat := (ram (mem + 4)).toNat

def setNext (ram : Ram) (mem next : Nat) : Ram := store16 ram mem next

def setPrev (ram : Ram) (mem prev : Nat) : Ram := store16 ram (mem + 2) prev

def setUsed (ram : Ram) (mem used : Nat) : Ram := Function.update ram (mem + 4) (BitVec.ofNat 8 used)

/-- `struct stats_mem` -/
structure StatsMem where
  err : Nat
  avail : Nat
  used : Nat
  max : Nat
  illegal : Nat

structure Heap where
  ram : Ram
  lfree : Nat
  stats : StatsMem

/-- `MEM_STATS_INC_USED(used, n)` -/
def Heap.incUsed (h : Heap) (n : Nat) : Heap :=
  let used := memSizeT (h.stats.used + n)
  { h with stats := { h.stats with used, max := if h.stats.max < used then used else h.stats.max } }

/-- `MEM_STATS_DEC_USED(used, n)` -/
def Heap.decUsed (h : Heap) (n : Nat) : Heap :=
  { h with stats.used := memSizeT (h.stats.used + 2 ^ 32 - n) }

/-- `MEM_STATS_INC_LOCKED(illegal)` -/
def Heap.incIllegal (h : Heap) : Heap := { h with stats.illegal := memSizeT (h.stats.illegal + 1) }

/-- `MEM_STATS_INC(err)` -/
def Heap.incErr (h : Heap) : Heap := { h with stats.err := memSizeT (h.stats.err + 1) }

/-! ## Initialisation -/

def memInit (ram : Ram) (stats : StatsMem) : Heap :=
  let ram := setUsed (setPrev (setNext ram 0 memSizeAligned) 0 0) 0 0
  let ramEnd := memSizeAligned
  let ram := setPrev (setNext (setUsed ram ramEnd 1) ramEnd memSizeAligned) ramEnd memSizeAligned
  { ram, lfree := 0, stats := { stats with avail := memSizeAligned } }

/-! ## Freeing -/

/-- `mem->next = nmem->next`, and the block after that gets `mem` as its `prev`. -/
def skipBlock (ram : Ram) (mem nmem : Nat) : Ram :=
  let ram := setNext ram mem (memNext ram nmem)
  if memNext ram nmem ≠ memSizeAligned then setPrev ram (memNext ram nmem) mem else ram

/-- Combines `mem` with the free block after it. -/
def plugForward (h : Heap) (mem nmem : Nat) : Heap :=
  { h with ram := skipBlock h.ram mem nmem, lfree := if h.lfree = nmem then mem else h.lfree }

/-- Combines `mem` with the free block before it. -/
def plugBackward (h : Heap) (mem pmem : Nat) : Heap :=
  { h with ram := skipBlock h.ram pmem mem, lfree := if h.lfree = mem then pmem else h.lfree }

def plugHoles (h : Heap) (mem : Nat) : Except String Heap := do
  lwipAssert "plug_holes: mem < ram_end" (mem < memSizeAligned)
  lwipAssert "plug_holes: mem->used == 0" (memUsed h.ram mem = 0)
  lwipAssert "plug_holes: mem->next <= MEM_SIZE_ALIGNED" (memNext h.ram mem ≤ memSizeAligned)
  let nmem := memNext h.ram mem
  let h := if mem ≠ nmem ∧ memUsed h.ram nmem = 0 ∧ nmem ≠ memSizeAligned then
    plugForward h mem nmem else h
  let pmem := memPrev h.ram mem
  return if pmem ≠ mem ∧ memUsed h.ram pmem = 0 then plugBackward h mem pmem else h

/-- `mem_link_valid` -/
def MemLinkValid (ram : Ram) (mem : Nat) : Prop :=
  let nmem := memNext ram mem
  let pmem := memPrev ram mem
  ¬(memSizeAligned < nmem ∨ memSizeAligned < pmem ∨ pmem ≠ mem ∧ memNext ram pmem ≠ mem ∨
    nmem ≠ memSizeAligned ∧ memPrev ram nmem ≠ mem)

instance (ram : Ram) (mem : Nat) : Decidable (MemLinkValid ram mem) :=
  inferInstanceAs (Decidable (¬_))

/-- `mem_free`, from where the header is known to lie in the array. -/
def memFreeAt (h : Heap) (mem : Nat) : Except String Heap :=
  -- a double free, or a header that is not linked
  if memUsed h.ram mem = 0 ∨ ¬MemLinkValid h.ram mem then .ok h.incIllegal
  else
    let ram := setUsed h.ram mem 0
    let lfree := if mem < h.lfree then mem else h.lfree
    plugHoles ({ h with ram, lfree }.decUsed (memNext ram mem - mem)) mem

/-- What `mem_free` counts as illegal: a misaligned pointer, and one that no block can begin at. -/
def Refused (rmem : Int) : Prop :=
  rmem % memAlignment ≠ 0 ∨ rmem - sizeofStructMem < 0 ∨ memSizeAligned < rmem + minSizeAligned

instance (rmem : Int) : Decidable (Refused rmem) := inferInstanceAs (Decidable (_ ∨ _))

/-- `rmem` is relative to `ram`, NULL is `none`. -/
def memFree (rmem : Option Int) (h : Heap) : Except String Heap :=
  match rmem with
  | none => .ok h
  | some rmem =>
      if Refused rmem then .ok h.incIllegal
      else memFreeAt h (rmem - sizeofStructMem).toNat

/-! ## Shrinking -/

/-- A free `struct mem` at `ptr2` is put between `mem` and `next`. What `mark` does is done once `mem`
    points to it. -/
def insertBlock (ram : Ram) (mem ptr2 next : Nat) (mark : Ram → Ram) : Ram :=
  let ram := setPrev (setNext (setUsed ram ptr2 0) ptr2 next) ptr2 mem
  let ram := mark (setNext ram mem ptr2)
  if memNext ram ptr2 ≠ memSizeAligned then setPrev ram (memNext ram ptr2) ptr2 else ram

/-- Moves the free block after `mem`, so that it begins at `ptr2`. -/
def moveNext (h : Heap) (mem ptr2 size newsize : Nat) : Heap :=
  let mem2 := memNext h.ram mem
  let next := memNext h.ram mem2
  let lfree := if h.lfree = mem2 then ptr2 else h.lfree
  { h with ram := insertBlock h.ram mem ptr2 next id, lfree }.decUsed (size - newsize)

/-- Makes a free block of the end of `mem`. -/
def insertFree (h : Heap) (mem ptr2 size newsize : Nat) : Heap :=
  let lfree := if ptr2 < h.lfree then ptr2 else h.lfree
  { h with ram := insertBlock h.ram mem ptr2 (memNext h.ram mem) id, lfree }.decUsed (size - newsize)

/-- The size that is asked of the heap for `size` bytes. -/
def adjustedSize (size : Nat) : Nat :=
  let aligned := memSizeT (lwipMemAlignSize size)
  if aligned < minSizeAligned then minSizeAligned else aligned

/-- `mem_trim`, from where the header is known. -/
def memTrimAt (h : Heap) (rmem : Int) (mem newsize : Nat) : Except String (Option Int × Heap) := do
  let size := memSizeT (memSizeT (memNext h.ram mem + 2 ^ 16 - mem) + 2 ^ 16 - sizeofStructMem)
  lwipAssert "mem_trim can only shrink memory" (newsize ≤ size)
  if newsize = size then
    return (some rmem, h)
  let ptr2 := memSizeT (mem + sizeofStructMem + newsize)
  if memUsed h.ram (memNext h.ram mem) = 0 then
    lwipAssert "invalid next ptr" (memNext h.ram mem ≠ memSizeAligned)
    return (some rmem, moveNext h mem ptr2 size newsize)
  else if newsize + sizeofStructMem + minSizeAligned ≤ size then
    lwipAssert "invalid next ptr" (memNext h.ram mem ≠ memSizeAligned)
    return (some rmem, insertFree h mem ptr2 size newsize)
  else return (some rmem, h)

def memTrim (rmem : Int) (newSize : Nat) (h : Heap) : Except String (Option Int × Heap) := do
  let newsize := adjustedSize newSize
  if memSizeAligned < newsize ∨ newsize < newSize then
    return (none, h)
  lwipAssert "mem_trim: legal memory" (0 ≤ rmem ∧ rmem < memSizeAligned)
  memTrimAt h rmem (rmem - sizeofStructMem).toNat newsize

/-! ## Allocating -/

/-- Unsigned subtraction. -/
def sub32 (a b : Nat) : Nat := (a + 2 ^ 32 - b) % 2 ^ 32

/-- The bytes of user data from `ptr` to the next header. -/
def userSize (ram : Ram) (ptr : Nat) : Nat := sub32 (memNext ram ptr) (ptr + sizeofStructMem)

/-- The loop of `mem_malloc`: the first free block from `ptr` on that has room for `size` bytes. -/
def findFree (ram : Ram) (size : Nat) : (fuel ptr : Nat) → Except String (Option Nat)
  | 0, _ => .error "mem_malloc does not return"
  | fuel + 1, ptr =>
      if ptr < memSizeAligned - size then
        if memUsed ram ptr = 0 ∧ size ≤ userSize ram ptr then .ok (some ptr)
        else findFree ram size fuel (memNext ram ptr)
      else .ok none

/-- Marks the free block at `mem` as used, without what it has more than `size` if that is a block. -/
def takeBlock (h : Heap) (mem size : Nat) : Except String Heap :=
  if size + sizeofStructMem + minSizeAligned ≤ userSize h.ram mem then do
    let ptr2 := memSizeT (mem + sizeofStructMem + size)
    lwipAssert "invalid next ptr" (ptr2 ≠ memSizeAligned)
    let ram := insertBlock h.ram mem ptr2 (memNext h.ram mem) (setUsed · mem 1)
    return { h with ram }.incUsed (size + sizeofStructMem)
  else
    .ok ({ h with ram := setUsed h.ram mem 1 }.incUsed (memNext h.ram mem - mem))

/-- The first free block from `cur` on, or the end of the heap. -/
def nextFree (ram : Ram) : (fuel cur : Nat) → Except String Nat
  | 0, _ => .error "mem_malloc does not return"
  | fuel + 1, cur =>
      if memUsed ram cur ≠ 0 ∧ cur ≠ memSizeAligned then nextFree ram fuel (memNext ram cur)
      else .ok cur

/-- `mem_malloc_adjust_lfree` -/
def adjustLfree (h : Heap) (mem : Nat) : Except String Heap :=
  if mem = h.lfree then do
    let lfree ← nextFree h.ram (memSizeAligned + 1) h.lfree
    lwipAssert "mem_malloc: !lfree->used" (lfree = memSizeAligned ∨ memUsed h.ram lfree = 0)
    return { h with lfree }
  else .ok h

/-- What `mem_malloc` does with what the search has found. The pointer is relative to `ram`. -/
def memMallocAt (h : Heap) (size : Nat) : (found : Option Nat) → Except String (Option Nat × Heap)
  | none => .ok (none, h.incErr)
  | some mem => do
      let h ← adjustLfree (← takeBlock h mem size) mem
      lwipAssert "mem_malloc: allocated memory not above ram_end."
        (mem + sizeofStructMem + size ≤ memSizeAligned)
      lwipAssert "mem_malloc: allocated memory properly aligned."
        ((mem + sizeofStructMem) % memAlignment = 0)
      return (some (mem + sizeofStructMem), h)

def memMalloc (sizeIn : Nat) (h : Heap) : Except String (Option Nat × Heap) :=
  if sizeIn = 0 then .ok (none, h)
  else
    let size := adjustedSize sizeIn
    if memSizeAligned < size ∨ size < sizeIn then .ok (none, h)
    else findFree h.ram size (memSizeAligned + 1) h.lfree >>= memMallocAt h size

/-- `memset(p, 0, len)` -/
def memsetZero (ram : Ram) (p len : Nat) : Ram := fun a => if p ≤ a ∧ a < p + len then 0 else ram a

def memCalloc (count size : Nat) (h : Heap) : Except String (Option Nat × Heap) := do
  let allocSize := count * size % 2 ^ 32
  if memSizeT allocSize ≠ allocSize then
    return (none, h)
  match ← memMalloc (memSizeT allocSize) h with
  | (none, h) => return (none, h)
  | (some p, h) => return (some p, { h with ram := memsetZero h.ram p allocSize })

/-! ## The heap's own check -/

/-- The loop of `mem_sanity`, whose assertions are its tests. -/
def sanityLoop (ram : Ram) : (fuel mem lastUsed : Nat) → Bool
  | 0, _, _ => false
  | fuel + 1, mem, lastUsed =>
      if 0 < mem ∧ mem < memSizeAligned then
        decide (mem % memAlignment = 0 ∧ memPrev ram mem ≤ memSizeAligned ∧
          memNext ram mem ≤ memSizeAligned ∧
          (if lastUsed = 0 then memUsed ram mem = 1 else memUsed ram mem = 0 ∨ memUsed ram mem = 1) ∧
          MemLinkValid ram mem) &&
          sanityLoop ram fuel (memNext ram mem) (memUsed ram mem)
      else decide (mem = memSizeAligned ∧ memUsed ram mem = 1 ∧ memPrev ram mem = memSizeAligned ∧
        memNext ram mem = memSizeAligned)

/-- `mem_sanity`: all its assertions hold. -/
def memSanity (h : Heap) : Bool :=
  decide ((memUsed h.ram 0 = 0 ∨ memUsed h.ram 0 = 1) ∧ memPrev h.ram 0 = 0 ∧
    memNext h.ram 0 ≤ memSizeAligned) &&
    sanityLoop h.ram (memSizeAligned + 1) (memNext h.ram 0) (memUsed h.ram 0)

end Lwip
