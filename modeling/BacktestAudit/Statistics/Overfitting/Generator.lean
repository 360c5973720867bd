/-!
A seeded generator of random numbers: a seed is spread over a pool of four words, from which a
128-bit linear congruential state is made; each step gives out a rotation of its folded halves.
-/
namespace BacktestAudit.Statistics.Overfitting

/-! ## Spreading a seed -/

/-- How many words of 32 bits there are, how many pairs and how many quadruples of them. -/
def wordCount : Nat := 0x100000000

def pairCount : Nat := wordCount * wordCount

def quadrupleCount : Nat := pairCount * pairCount

namespace Seed

def word (n : Nat) : Nat := n % wordCount

def fold (v : Nat) : Nat := v ^^^ (v >>> 16)

/-- One step of the hash: the word and the next constant. -/
def hashWith (multiplier constant v : Nat) : Nat × Nat :=
  let next := word (constant * multiplier)
  (fold (word ((v ^^^ constant) * next)), next)

def poolMultiplier : Nat := 0x931e8875

def outputMultiplier : Nat := 0x58f38ded

def mix (x y : Nat) : Nat :=
  fold (word (0xca01f9dd * x + (pairCount - word (0x4973f715 * y))))

/-- The pool of four words with the running constant of the hash. -/
structure Pool where
  words : Array Nat
  constant : Nat

namespace Pool

def hash (p : Pool) (v : Nat) : Nat × Pool :=
  let (h, next) := hashWith poolMultiplier p.constant v
  (h, { p with constant := next })

def stir (p : Pool) (place v : Nat) : Pool :=
  let (h, p) := p.hash v
  { p with words := p.words.set! place (mix (p.words.getD place 0) h) }

/-- A pool of the first four words of a seed. -/
def fill (entropy : List Nat) : Pool :=
  (List.range 4).foldl
    (fun p i =>
      let (h, p) := p.hash (entropy.getD i 0)
      { p with words := p.words.push h })
    ⟨#[], 0x43b0d7e5⟩

def places : List (Nat × Nat) :=
  (List.range 4).flatMap fun s => ((List.range 4).filter (· ≠ s)).map (s, ·)

def ofEntropy (entropy : List Nat) : Pool :=
  let mixed := places.foldl (fun p (s, d) => p.stir d (p.words.getD s 0)) (fill entropy)
  (entropy.drop 4).foldl (fun p v => (List.range 4).foldl (fun p d => p.stir d v) p) mixed

def output (p : Pool) : List Nat :=
  ((List.range 8).foldl
    (fun (acc : List Nat × Nat) i =>
      let (h, next) := hashWith outputMultiplier acc.2 (p.words.getD (i % 4) 0)
      (acc.1 ++ [h], next))
    ([], 0x8b51f9dd)).1

end Pool

/-- The words of a natural number, the lowest first. -/
def wordsOf (n : Nat) : List Nat :=
  if _ : n < wordCount then [n] else word n :: wordsOf (n / wordCount)
termination_by n
decreasing_by
  unfold wordCount at *
  omega

end Seed

/-! ## The generator -/

structure Generator where
  state : Nat
  increment : Nat
  /-- The half of the last output that is not yet given out. -/
  saved : Option Nat

namespace Generator

def multiplier : Nat := 0x2360ed051fc65da44385df649fccf645

def step (g : Generator) : Generator :=
  { g with state := (g.state * multiplier + g.increment) % quadrupleCount }

def joined (low high : Nat) : Nat := low + high * wordCount

def ofWords (entropy : List Nat) : Generator :=
  let w := (Seed.Pool.ofEntropy entropy).output.toArray
  let q (j : Nat) : Nat := joined (w.getD (2 * j) 0) (w.getD (2 * j + 1) 0)
  let increment := ((q 2 * pairCount + q 3) * 2 + 1) % quadrupleCount
  let g : Generator := step ⟨0, increment, none⟩
  step { g with state := (g.state + q 0 * pairCount + q 1) % quadrupleCount }

def rotateRight (x count : Nat) : Nat :=
  (x >>> count ||| x <<< (64 - count)) % pairCount

def next64 (g : Generator) : Nat × Generator :=
  let g := g.step
  (rotateRight ((g.state >>> 64) ^^^ (g.state % pairCount)) (g.state >>> 122), g)

/-- The low half of an output, and its high half the next time. -/
def next32 (g : Generator) : Nat × Generator :=
  match g.saved with
  | some high => (high, { g with saved := none })
  | none =>
    let (x, g) := g.next64
    (x % wordCount, { g with saved := some (x / wordCount) })

/-- Draws until the low part of a product leaves no bias; it is left at that after many draws. -/
def redraw (words : Nat) (next : Generator → Nat × Generator) (count threshold : Nat) :
    Nat → Nat → Generator → Nat × Generator
  | 0, product, g => (product, g)
  | fuel + 1, product, g =>
    if product % words < threshold then
      let (x, g) := next g
      redraw words next count threshold fuel (x * count) g
    else (product, g)

def maxRedraws : Nat := 1000

/-- A number from zero to a bound, all equally likely, where all below `words` are drawn. -/
def scaled (words : Nat) (next : Generator → Nat × Generator) (g : Generator) (bound : Nat) :
    Nat × Generator :=
  let count := bound + 1
  let (x, g) := next g
  let (product, g) := redraw words next count ((words - count) % count) maxRedraws (x * count) g
  (product / words, g)

/-- A number from zero to a bound, from halves of outputs where they are large enough. -/
def bounded (g : Generator) (bound : Nat) : Nat × Generator :=
  if bound = 0 then (0, g)
  else if bound < wordCount then scaled wordCount next32 g bound
  else scaled pairCount next64 g bound

/-! ## Choices -/

/-- Draws a number up to a bound that was not drawn before; the bound itself stands in for one that
was. -/
def draw (acc : List Nat × Generator) (bound : Nat) : List Nat × Generator :=
  let (v, g) := acc.2.bounded bound
  (if v ∈ acc.1 then bound :: acc.1 else v :: acc.1, g)

/-- Exchanges the number at a place with one that stands no later. -/
def exchange (acc : Array Nat × Generator) (place : Nat) : Array Nat × Generator :=
  let (other, g) := acc.2.bounded place
  (acc.1.swapIfInBounds place other, g)

def shuffleDown (numbers : Array Nat) (first : Nat) (g : Generator) : Array Nat × Generator :=
  (List.range' first (numbers.size - first)).reverse.foldl exchange (numbers, g)

/-- Many of many numbers are chosen by a shuffle of them all. -/
def shufflesAll (n k : Nat) : Bool := 10000 < n && n / 50 < k

def choose (g : Generator) (n k : Nat) : List Nat × Generator :=
  if shufflesAll n k then
    let (numbers, g) := shuffleDown (Array.range n) (max (n - k) 1) g
    (numbers.toList.drop (n - k), g)
  else
    let (chosen, g) := (List.range' (n - k) k).foldl draw ([], g)
    let (numbers, g) := shuffleDown chosen.reverse.toArray 1 g
    (numbers.toList, g)

end Generator
end BacktestAudit.Statistics.Overfitting
