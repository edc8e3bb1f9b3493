import Mathlib.Algebra.Order.BigOperators.Group.List
import Mathlib.Tactic.Ring

/-! Token buckets that are filled when they are used. The level is what has flowed in altogether; a
bucket remembers the level at which it was last filled. -/
namespace TokenBucket

structure Bucket where
  burst : ℕ
  tokens : ℕ
  last : ℕ

/-- What happens to a bucket: it covers a request, it does not, or it is not asked. -/
inductive Request where
  | take (n : ℕ)
  | refuse
  | skip

def Request.taken : Request → ℕ
  | .take n => n
  | .refuse => 0
  | .skip => 0

namespace Bucket

/-- What has flowed in since the last time fills the bucket up to its burst size. -/
def fill (b : Bucket) (level : ℕ) : Bucket :=
  { b with tokens := min (b.tokens + (level - b.last)) b.burst, last := level }

def step (b : Bucket) (level : ℕ) : Request → Bucket
  | .take n => { b.fill level with tokens := (b.fill level).tokens - n }
  | .refuse => b.fill level
  | .skip => b

/-- A bucket that is asked was last filled before, and what it covers is in it. -/
def Allows (b : Bucket) (level : ℕ) : Request → Prop
  | .take n => b.last ≤ level ∧ n ≤ (b.fill level).tokens
  | .refuse => b.last ≤ level
  | .skip => True

/-- The requests of a run, with the levels at which they come. -/
def AllowsAll : Bucket → List (ℕ × Request) → Prop
  | _, [] => True
  | b, (level, r) :: l => b.Allows level r ∧ (b.step level r).AllowsAll l

/-- `total` has been taken since the level was `start`. -/
structure Spent (start total : ℕ) (b : Bucket) : Prop where
  tokens_le : b.tokens ≤ b.burst
  bound : total + b.tokens ≤ b.burst + (b.last - start)
  since : total = 0 ∨ start ≤ b.last

variable {b : Bucket} {start total level : ℕ} {r : Request}

theorem Spent.zero (h : b.tokens ≤ b.burst) (start : ℕ) : Spent start 0 b :=
  ⟨h, by omega, .inl rfl⟩

theorem step_burst (b : Bucket) (level : ℕ) (r : Request) : (b.step level r).burst = b.burst := by
  cases r <;> rfl

theorem Spent.fill (h : Spent start total b) (hlast : b.last ≤ level) (hstart : start ≤ level) :
    Spent start total (b.fill level) := by
  obtain ⟨htokens, hbound, hsince⟩ := h
  have hburst : (b.fill level).burst = b.burst := rfl
  have hfill : (b.fill level).tokens = min (b.tokens + (level - b.last)) b.burst := rfl
  have hlevel : (b.fill level).last = level := rfl
  refine ⟨by omega, ?_, .inr hstart⟩
  rcases hsince with rfl | hsince <;> omega

/-- A step adds what it takes. -/
theorem Spent.step (h : Spent start total b) (hstart : start ≤ level) (hr : b.Allows level r) :
    Spent start (total + r.taken) (b.step level r) := by
  cases r with
  | take n =>
    obtain ⟨hlast, hn⟩ := hr
    obtain ⟨htokens, hbound, -⟩ := h.fill hlast hstart
    have hburst : (b.step level (.take n)).burst = (b.fill level).burst := rfl
    have htake : (b.step level (.take n)).tokens = (b.fill level).tokens - n := rfl
    have hlevel : (b.step level (.take n)).last = (b.fill level).last := rfl
    have htaken : (Request.take n).taken = n := rfl
    exact ⟨by omega, by omega, .inr hstart⟩
  | refuse => exact h.fill hr hstart
  | skip => exact h

/-- The bucket after a run. -/
def run (b : Bucket) (l : List (ℕ × Request)) : Bucket := l.foldl (fun b p => b.step p.1 p.2) b

theorem run_burst (b : Bucket) (l : List (ℕ × Request)) : (b.run l).burst = b.burst := by
  induction l generalizing b with
  | nil => rfl
  | cons p l ih => exact (ih _).trans (b.step_burst _ _)

theorem Spent.run {l : List (ℕ × Request)} (h : Spent start total b)
    (hstart : ∀ p ∈ l, start ≤ p.1) (hl : b.AllowsAll l) :
    Spent start (total + (l.map fun p => p.2.taken).sum) (b.run l) := by
  induction l generalizing b total with
  | nil => exact h
  | cons p l ih =>
    obtain ⟨hp, hrest⟩ := List.forall_mem_cons.mp hstart
    rw [List.map_cons, List.sum_cons, ← add_assoc]
    exact ih (h.step hp hl.1) hrest hl.2

/-- No bucket is ever ahead of the level. -/
theorem last_run_le {l : List (ℕ × Request)} {finish : ℕ} (hb : b.last ≤ finish)
    (hl : ∀ p ∈ l, p.1 ≤ finish) : (b.run l).last ≤ finish := by
  induction l generalizing b with
  | nil => exact hb
  | cons p l ih =>
    obtain ⟨hp, hrest⟩ := List.forall_mem_cons.mp hl
    refine ih ?_ hrest
    obtain ⟨level, r⟩ := p
    cases r with
    | take n => exact hp
    | refuse => exact hp
    | skip => exact hb

/-- What is taken while the level goes from `start` to `finish` is at most a full bucket and what
flows in. -/
theorem sum_taken_le {l : List (ℕ × Request)} {finish : ℕ} (start : ℕ) (hb : b.tokens ≤ b.burst)
    (hlast : b.last ≤ finish) (hlevels : ∀ p ∈ l, start ≤ p.1 ∧ p.1 ≤ finish)
    (hl : b.AllowsAll l) : (l.map fun p => p.2.taken).sum ≤ b.burst + (finish - start) := by
  have hspent := (Spent.zero hb start).run (fun p hp => (hlevels p hp).1) hl
  have hend := last_run_le hlast fun p hp => (hlevels p hp).2
  have hbound := hspent.bound
  rw [run_burst] at hbound
  omega

end Bucket

end TokenBucket
