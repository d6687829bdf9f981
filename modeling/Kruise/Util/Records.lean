import Mathlib.Data.List.AList

/-!
# Time-stamped records

The maps from pod names to times that webhooks write into a status and controllers
clean up (`map[string]metav1.Time`). Times are nanoseconds.
-/

namespace Kruise.Util

abbrev Records := AList fun _ : String => Int

/- A record of time `t` counts until `t + timeout`. -/
def expired (timeout now t : Int) : Bool := t+timeout<now

def noneExpired (timeout now : Int) (records : Records) : Bool :=
  records.entries.all fun e => !expired timeout now e.2

theorem expired_of_noneExpired {timeout now t : Int} {records : Records} {n : String}
    (h : noneExpired timeout now records) (ht : records.lookup n=some t) : expired timeout now t=false := by
  have hm : Sigma.mk n t∈records.entries := AList.mem_lookup_iff.mp ht
  simpa using List.all_eq_true.mp h _ hm

end Kruise.Util
