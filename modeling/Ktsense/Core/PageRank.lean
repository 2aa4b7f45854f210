import Ktsense.Core.Rank

/-!
# PageRank

`page_rank` of `rank.rs`.  The source computes with `f64`; here the arithmetic
is a parameter, so that what is proved of the programs around it does not
depend on rounding.
-/

namespace Ktsense.Core

open Ktsense.Foundation

/-- The operations `page_rank` uses of its number type. -/
structure Arithmetic (F : Type*) where
  ofNat : ℕ → F
  add : F → F → F
  sub : F → F → F
  mul : F → F → F
  div : F → F → F
  partialCmp : F → F → Option Ordering

namespace Arithmetic

variable {F : Type*} (arithmetic : Arithmetic F)

/-- `partial_cmp(..).unwrap_or(Equal)`. -/
def cmp (left right : F) : Ordering :=
  (arithmetic.partialCmp left right).getD .eq

def sum (values : List F) : F :=
  values.foldl arithmetic.add (arithmetic.ofNat 0)

end Arithmetic

/-- Scores as fractions. -/
def rationalArithmetic : Arithmetic ℚ where
  ofNat := Nat.cast
  add := (· + ·)
  sub := (· - ·)
  mul := (· * ·)
  div := (· / ·)
  partialCmp left right := some (compare left right)

theorem rationalArithmetic_transCmp : Std.TransCmp rationalArithmetic.cmp :=
  inferInstanceAs (Std.TransCmp (compare : ℚ → ℚ → Ordering))

structure PageRankOptions (F : Type*) where
  damping : F
  iterations : ℕ

/-- Damping 0.85 over 30 rounds. -/
def PageRankOptions.default {F : Type*} (arithmetic : Arithmetic F) :
    PageRankOptions F where
  damping := arithmetic.div (arithmetic.ofNat 85) (arithmetic.ofNat 100)
  iterations := 30

structure RankedNode (N F : Type*) where
  node : N
  score : F

section PageRank

variable {N F : Type*} [LinearOrder N] (arithmetic : Arithmetic F)
  (graph : Graph N) (options : PageRankOptions F)

/-- What every node starts the next round with: the share of the damping and of
the mass held by nodes without targets. -/
def pageRankFloor (scores : List F) : F :=
  let population := arithmetic.ofNat graph.nodeIds.length
  let dangling := (scores.zip graph.outEdges).filter fun (_, targets) =>
    targets.length = 0
  let danglingMass := arithmetic.sum (dangling.map Prod.fst)
  arithmetic.add
    (arithmetic.div
      (arithmetic.sub (arithmetic.ofNat 1) options.damping) population)
    (arithmetic.div (arithmetic.mul options.damping danglingMass) population)

/-- Give each target of one node its share of the node's score. -/
def pageRankSpread (next : List F) (source : F × List ℕ) : List F :=
  if source.2.length = 0 then next
  else
    let share := arithmetic.div (arithmetic.mul options.damping source.1)
      (arithmetic.ofNat source.2.length)
    source.2.foldl
      (fun next target => next.modify target (arithmetic.add · share)) next

/-- One round of the power iteration. -/
def pageRankRound (scores : List F) : List F :=
  (scores.zip graph.outEdges).foldl (pageRankSpread arithmetic options)
    (List.replicate graph.nodeIds.length
      (pageRankFloor arithmetic graph options scores))

def pageRank : List (RankedNode N F) :=
  let count := graph.nodeIds.length
  let start := List.replicate count
    (arithmetic.div (arithmetic.ofNat 1) (arithmetic.ofNat count))
  let scores :=
    (pageRankRound arithmetic graph options)^[options.iterations] start
  let ranked := (graph.nodeIds.zip scores).map fun (node, score) =>
    ({ node, score } : RankedNode N F)
  sortBy (fun left right =>
    (arithmetic.cmp right.score left.score).then (compare left.node right.node))
    ranked

end PageRank

end Ktsense.Core
