import Mathlib.Data.List.Dedup

/-!
# The jobs that a copied secret is for

A copy of a pull secret carries the keys of the jobs that need it in an annotation
(`imagepulljob_utils.go` 149-220). Text is a list of characters, a set a list of keys in the order
in which it happens to be visited.
-/

namespace Kruise.ImagePullJob

open List

structure Key where
  ns : List Char
  name : List Char
  deriving DecidableEq

/- Neither part has a comma or a slash, as all names and namespaces. -/
def Key.Plain (k : Key) : Prop := (','∉k.ns ∧ '/'∉k.ns) ∧ ','∉k.name ∧ '/'∉k.name
  deriving Decidable

def Key.text (k : Key) : List Char := k.ns ++ '/'::k.name

def splitMetaNamespaceKey (text : List Char) : Option Key :=
  match text.splitOn '/' with
  | [name] => some ⟨[],name⟩
  | [ns,name] => some ⟨ns,name⟩
  | _ => none

def referenceText (keys : List Key) : List Char := [','].intercalate (keys.map Key.text)

/- `referenceSetFromTarget`: parts that do not parse are left out. -/
def referenceSet (text : List Char) : List Key :=
  ((text.splitOn ',').filterMap splitMetaNamespaceKey).dedup

theorem text_eq_intercalate (k : Key) : k.text=['/'].intercalate [k.ns,k.name] := by
  simp [Key.text,List.intercalate]

theorem splitMetaNamespaceKey_text {k : Key} (h : k.Plain) : splitMetaNamespaceKey k.text=some k := by
  have hspl : k.text.splitOn '/'=[k.ns,k.name] := by
    rw [text_eq_intercalate]
    refine splitOn_intercalate '/' ?_ (cons_ne_nil _ _)
    intro part hpart
    rcases mem_cons.mp hpart with rfl | hpart
    · exact h.1.2
    · rw [mem_singleton.mp hpart]
      exact h.2.2
  unfold splitMetaNamespaceKey
  rw [hspl]

theorem comma_not_mem_text {k : Key} (h : k.Plain) : ','∉k.text := by
  unfold Key.text
  rw [mem_append,mem_cons]
  rintro (hns | hslash | hn)
  · exact h.1.1 hns
  · exact absurd hslash (by decide)
  · exact h.2.1 hn

theorem referenceSet_referenceText {keys : List Key} (hpl : ∀ k∈keys,k.Plain)
    (hnd : keys.Nodup) (hne : keys≠[]) : referenceSet (referenceText keys)=keys := by
  have hspl : (referenceText keys).splitOn ','=keys.map Key.text := by
    refine splitOn_intercalate ',' ?_ (by simpa using hne)
    intro text ht
    obtain ⟨k,hk,rfl⟩ := mem_map.mp ht
    exact comma_not_mem_text (hpl k hk)
  have hpar : (keys.map Key.text).filterMap splitMetaNamespaceKey=keys := by
    rw [filterMap_map]
    refine (filterMap_congr ?_).trans filterMap_some
    intro k hk
    exact splitMetaNamespaceKey_text (hpl k hk)
  unfold referenceSet
  rw [hspl,hpar]
  exact hnd.dedup

theorem referenceSet_empty : referenceSet (referenceText [])=[⟨[],[]⟩] := by
  decide

end Kruise.ImagePullJob
