import Kruise.Lib.Counting
import Kruise.Lib.Sorting
import Kruise.Util.Selector

/-!
# Scattering pods that match a label

`scatterSort` (`scatter_sort.go`). The slice of pods has holes, `nil` for reserved ordinals. A step
that panics in Go is `none` here; so is the group of no pods, whose sizes are `NaN`.
-/

namespace Kruise.UpdateSort

open Util.Selector Lib.Sorting Lib.Counting

structure ScatterTerm where
  key : String
  value : String
  deriving DecidableEq

/- The two float computations. A quotient that is at least one does not round to zero. -/
structure ScatterFloat where
  /-- `math.Round(float64(a) / float64(b))`. -/
  round : Int → Int → Int
  /-- `float32(a) / float32(b) >= float32(c) / float32(d)`. -/
  ratioGe : Int → Int → Int → Int → Bool
  round_pos : ∀ a b,0<b → b≤a → 0<round a b

variable (pods : List (Option Labels)) (term : ScatterTerm) (fl : ScatterFloat)

def podLabels (i : Nat) : Option Labels := (pods[i]?).join

/- `Labels[key] == value`; a missing label reads as empty. -/
def ScatterTerm.matches (labels : Labels) : Bool :=
  (labels term.key).getD "" = term.value

def ScatterTerm.id : String := term.key ++ ":" ++ term.value

structure TermCounts where
  terms : List ScatterTerm
  counter : List (String × Nat)

def TermCounts.count (c : TermCounts) (term : ScatterTerm) : Nat :=
  (c.counter.lookup term.id).getD 0

def TermCounts.add (c : TermCounts) (term : ScatterTerm) : TermCounts :=
  match c.counter.lookup term.id with
  | none => ⟨c.terms++[term],(term.id,1)::c.counter⟩
  | some n => ⟨c.terms,(term.id,n+1)::c.counter⟩

def countIndex (c : TermCounts) (i : Nat) : Option TermCounts :=
  (podLabels pods i).map fun labels =>
    if labels term.key=some term.value then c.add term else c

def countTerm (indexes : List Nat) (c : TermCounts) (term : ScatterTerm) : Option TermCounts :=
  indexes.foldlM (countIndex pods term) c

/- `sort.SliceStable` only asks whether a later term belongs before an earlier one, for which the
comparator answers no when the counts are equal. -/
def getScatterTerms (strategy : List ScatterTerm) (pods : List (Option Labels))
    (indexes : List Nat) : Option (List ScatterTerm) :=
  if strategy.length=1 then some strategy
  else
    (strategy.foldlM (countTerm pods indexes) ⟨[],[]⟩).map fun c =>
      stableSort (fun a b => c.count a > c.count b) c.terms

structure ScatterGroup where
  groupNum : Int
  matchedGroupSize : Int
  unmatchedGroupSize : Int
  unmatchedRemainder : Int

def newScatterGroup (matched unmatched : Int) : Option ScatterGroup :=
  let groupNum:=if matched<unmatched then matched else unmatched
  if groupNum=0 then none
  else some ⟨groupNum,fl.round matched groupNum,fl.round unmatched groupNum,0⟩

def goDiv (a b : Int) : Option Int := if b=0 then none else some (a.tdiv b)

def calculateGroupByDensity
    (totalMatched totalUnmatched updateMatched updateUnmatched : Int) : Option ScatterGroup := do
  let totalGroup ← newScatterGroup fl totalMatched totalUnmatched
  let updateGroup ← newScatterGroup fl updateMatched updateUnmatched
  if fl.ratioGe totalUnmatched totalMatched updateUnmatched updateMatched then
    return updateGroup
  else
    let matchedGroups ← goDiv updateMatched totalGroup.matchedGroupSize
    let unmatchedGroups ← goDiv updateUnmatched totalGroup.unmatchedGroupSize
    let groupNum:=if matchedGroups<unmatchedGroups then matchedGroups else unmatchedGroups
    return ⟨groupNum,totalGroup.matchedGroupSize,totalGroup.unmatchedGroupSize,
      updateUnmatched-groupNum*totalGroup.unmatchedGroupSize⟩

/- `xs[:n]` and `xs[n:]`. -/
def slice (xs : List Nat) (n : Int) : Option (List Nat × List Nat) :=
  if 0≤n ∧ n≤xs.length then some (xs.take n.toNat,xs.drop n.toNat) else none

def migrateItems (src dst : List Nat) (size : Int) : Option (List Nat × List Nat) :=
  if src.length=0 then some (src,dst)
  else if (src.length : Int)<size then some ([],dst++src)
  else (slice src size).map fun parts => (parts.2,dst++parts.1)

structure Migration where
  matched : List Nat
  unmatched : List Nat
  new : List Nat

def migrateGroup (group : ScatterGroup) (m : Migration) : Option Migration := do
  let matched ← migrateItems m.matched m.new group.matchedGroupSize
  let unmatched ← migrateItems m.unmatched matched.2 group.unmatchedGroupSize
  return ⟨matched.1,unmatched.1,unmatched.2⟩

def migrateGroups (group : ScatterGroup) : Nat → Migration → Option Migration
  | 0,m => some m
  | n+1,m => (migrateGroup group m).bind (migrateGroups group n)

def takeRemainder (group : ScatterGroup) (matched unmatched : List Nat) : Option Migration :=
  if group.unmatchedRemainder > 0 then
    (slice unmatched group.unmatchedRemainder).map fun parts => ⟨matched,parts.2,parts.1⟩
  else some ⟨matched,unmatched,[]⟩

def splitMatched (pods : List (Option Labels)) (term : ScatterTerm) :
    List Nat → Option (List Nat × List Nat)
  | [] => some ([],[])
  | i::indexes => do
    let labels ← podLabels pods i
    let rest ← splitMatched pods term indexes
    return if term.matches labels then (i::rest.1,rest.2) else (rest.1,i::rest.2)

def totalMatched : Int :=
  pods.countP (·.any term.matches)

def totalUnmatched : Int :=
  pods.countP (·.any fun labels => !term.matches labels)

def scatterPodsByRule (pods : List (Option Labels)) (indexes : List Nat)
    (term : ScatterTerm) : Option (List Nat) := do
  let parts ← splitMatched pods term indexes
  if parts.1.length≤1 ∨ parts.2.length≤1 then return indexes
  else
    let lastMatchedIndex ← parts.1.getLast?
    let matchedIndexes:=parts.1.dropLast
    let group ← calculateGroupByDensity fl (totalMatched pods term-1) (totalUnmatched pods term)
      matchedIndexes.length parts.2.length
    let start ← takeRemainder group matchedIndexes parts.2
    let last ← migrateGroups group group.groupNum.toNat start
    return last.new++last.matched++last.unmatched++[lastMatchedIndex]

def scatterSort (strategy : List ScatterTerm) (pods : List (Option Labels))
    (indexes : List Nat) : Option (List Nat) :=
  if strategy.length=0 ∨ indexes.length≤1 then some indexes
  else do
    let terms ← getScatterTerms strategy pods indexes
    terms.foldlM (scatterPodsByRule fl pods) indexes

end Kruise.UpdateSort
