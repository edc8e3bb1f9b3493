import Bmv2.Packet.Headers

/-! Header stacks (`header_stacks.h`): pushing and popping moves the values of the headers, not
the headers themselves. -/
namespace Bmv2

namespace Field

/-- `swap_values`: the field with the values of another one. -/
def withValues (f other : Field) : Field := { f with value := other.value, bytes := other.bytes }

end Field

namespace Header

def markValid (h : Header) : Header := { h with valid := true }
def markInvalid (h : Header) : Header := { h with valid := false }

/-- `swap_values`: the header with the values of another one of its type. -/
def withValues (h other : Header) : Header :=
  { h with valid := other.valid, fields := List.zipWith Field.withValues h.fields other.fields }

end Header

/-- The count after `push_front`: the sum of two numbers of type `size_t` wraps around. -/
def HeaderStack.pushedNext (s : HeaderStack) (num : ℕ) : ℕ :=
  min s.headers.length ((s.next + num) % 2 ^ 64)

namespace PHV

variable (phv : PHV)

def setHeader (header : ℕ) (h : Header) : PHV :=
  { phv with headers := phv.headers.set header h }

/-- Update a header; an unknown one is undefined. -/
def modifyHeader (header : ℕ) (f : Header → Header) : Option PHV := do
  let h ← phv.headers[header]?
  some (phv.setHeader header (f h))

def setStack (stack : ℕ) (s : HeaderStack) : PHV :=
  { phv with headerStacks := phv.headerStacks.set stack s }

def swapValues (header1 header2 : ℕ) : Option PHV := do
  let h1 ← phv.headers[header1]?
  let h2 ← phv.headers[header2]?
  some ((phv.setHeader header1 (h1.withValues h2)).setHeader header2 (h2.withValues h1))

/-- The loops over positions of a stack. -/
def forPositions (s : HeaderStack) (f : PHV → (ℕ → Option ℕ) → ℕ → Option PHV) :
    List ℕ → PHV → Option PHV
  | [], phv => some phv
  | i :: positions, phv => do
    let phv ← f phv (s.headers[·]?) i
    forPositions s f positions phv

/-- `pop_front`: the number of headers popped, and the headers after it. -/
def popFront (stack num : ℕ) : Option (ℕ × PHV) := do
  let s ← phv.headerStacks[stack]?
  if num = 0 then some (0, phv)
  else do
    let popped := min s.next num
    let next := s.next - popped
    let phv ← forPositions s (fun phv at_ i => do
      phv.swapValues (← at_ i) (← at_ (i + num))) (List.range next) phv
    let phv ← forPositions s (fun phv at_ i => do
      phv.modifyHeader (← at_ i) Header.markInvalid) (List.range' next popped) phv
    some (popped, phv.setStack stack { s with next })

/-- `push_front`. The positions are visited from the last one down, which wraps around when the
new count is zero. -/
def pushFront (stack num : ℕ) : Option (ℕ × PHV) := do
  let s ← phv.headerStacks[stack]?
  if num = 0 then some (0, phv)
  else if s.pushedNext num = 0 then none
  else do
    let next := s.pushedNext num
    let phv ← forPositions s (fun phv at_ i => do
      phv.swapValues (← at_ i) (← at_ (i - num))) (List.range' num (next - num)).reverse phv
    let pushed := min s.headers.length num
    let phv ← forPositions s (fun phv at_ i => do
      phv.modifyHeader (← at_ i) Header.markValid) (List.range pushed) phv
    some (pushed, phv.setStack stack { s with next })

/-- `pop_front` without a number. -/
def popFrontOne (stack : ℕ) : Option (ℕ × PHV) := do
  let s ← phv.headerStacks[stack]?
  if s.next = 0 then some (0, phv)
  else do
    let next := s.next - 1
    let phv ← forPositions s (fun phv at_ i => do
      phv.swapValues (← at_ i) (← at_ (i + 1))) (List.range next) phv
    let phv ← phv.modifyHeader (← s.headers[next]?) Header.markInvalid
    some (1, phv.setStack stack { s with next })

/-- `push_front` without a number. -/
def pushFrontOne (stack : ℕ) : Option (ℕ × PHV) := do
  let s ← phv.headerStacks[stack]?
  let next := if s.next < s.headers.length then s.next + 1 else s.next
  if next = 0 then none
  else do
    let phv ← forPositions s (fun phv at_ i => do
      phv.swapValues (← at_ i) (← at_ (i - 1))) (List.range' 1 (next - 1)).reverse phv
    let phv ← phv.modifyHeader (← s.headers[0]?) Header.markValid
    some (1, phv.setStack stack { s with next })

/-- `push_back`. -/
def pushBack (stack : ℕ) : Option (ℕ × PHV) := do
  let s ← phv.headerStacks[stack]?
  if s.next = s.headers.length then some (0, phv)
  else do
    let phv ← phv.modifyHeader (← s.headers[s.next]?) Header.markValid
    some (1, phv.setStack stack { s with next := s.next + 1 })

/-- `pop_back`. -/
def popBack (stack : ℕ) : Option (ℕ × PHV) := do
  let s ← phv.headerStacks[stack]?
  if s.next = 0 then some (0, phv)
  else do
    let phv ← phv.modifyHeader (← s.headers[s.next - 1]?) Header.markInvalid
    some (1, phv.setStack stack { s with next := s.next - 1 })

/-- `get_next` asserts that the stack is not full, `get_last` that it is not empty. -/
def stackNext (stack : ℕ) : Option ℕ := do
  let s ← phv.headerStacks[stack]?
  s.headers[s.next]?

def stackLast (stack : ℕ) : Option ℕ := do
  let s ← phv.headerStacks[stack]?
  if s.next = 0 then none else s.headers[s.next - 1]?

end PHV

end Bmv2
