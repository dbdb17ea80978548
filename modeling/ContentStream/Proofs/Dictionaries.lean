import ContentStream.Object
import Mathlib.Data.List.Induction

/-!
# Dictionaries

Entries are added to a dictionary one by one. A key that comes up for the first time goes to the
end; one that comes up again keeps its place and gets the new value. So the keys of a dictionary are
those of its entries, in the order in which they first came up, and the value of a key is the one
that came last. Together the two say what the dictionary is, for no key is in it twice.

## Main results

* `Dict.map_fst_ofList`: the keys of a list of entries.
* `Dict.get?_ofList`: the values of a list of entries.
* `Dict.ofList_of_nodup`: entries with distinct keys are a dictionary as they stand.
-/

namespace ContentStream

namespace Dict

/-! ### Adding an entry -/

/-- A key that is not there goes to the end. -/
theorem insert_of_not_mem {key : String} {d : Dict} (h : key ∉ d.map Prod.fst) (value : Object) :
    insert key value d = d ++ [(key, value)] := by
  induction d with
  | nil => rfl
  | cons entry rest ih =>
      rw [List.map_cons, List.mem_cons, not_or] at h
      rw [insert, beq_false_of_ne (Ne.symm h.1), ih h.2]
      rfl

/-- A key that is there already keeps its place, and so do all the others. The induction is on the
entries up to the first with this key. -/
theorem map_fst_insert_of_mem {key : String} {d : Dict} (h : key ∈ d.map Prod.fst)
    (value : Object) : (insert key value d).map Prod.fst = d.map Prod.fst := by
  induction d with
  | nil => cases h
  | cons entry rest ih =>
      rw [insert]
      by_cases hkey : entry.1 = key
      · rw [hkey, beq_self_eq_true, if_pos rfl, List.map_cons, List.map_cons, hkey]
      · rw [List.map_cons, List.mem_cons] at h
        rw [beq_false_of_ne hkey]
        exact congrArg (entry.1 :: ·) (ih (h.resolve_left (Ne.symm hkey)))

/-- The entry that is added gives its key a value, and leaves the other keys alone, whether or not
the key was there before. -/
theorem get?_insert (key : String) (value : Object) (d : Dict) (key' : String) :
    (insert key value d).get? key' = if key = key' then some value else d.get? key' := by
  induction d with
  | nil =>
      by_cases hkey : key = key' <;> simp [insert, get?, hkey]
  | cons entry rest ih =>
      simp only [get?] at ih
      rw [insert]
      by_cases hentry : entry.1 = key
      · by_cases hkey : key = key'
        · simp [get?, hentry, hkey]
        · simp [get?, hentry, hkey]
      · rw [beq_false_of_ne hentry]
        by_cases hkey : entry.1 = key'
        · have hne : key ≠ key' := fun h => hentry (hkey.trans h.symm)
          simp [get?, hkey, hne]
        · simp [get?, hkey, ih]

/-! ### Lists of entries -/

/-- The last of some entries is added to the dictionary of the others. -/
theorem ofList_append_singleton (entries : List (String × Object)) (entry : String × Object) :
    ofList (entries ++ [entry]) = insert entry.1 entry.2 (ofList entries) := by
  rw [ofList, List.foldl_append]
  rfl

/-- The keys are those of the entries, each where it came first. The induction is on the entries
from the last one, which is the one that is added at the end. -/
theorem map_fst_ofList (entries : List (String × Object)) :
    (ofList entries).map Prod.fst = (entries.map Prod.fst).eraseDups := by
  induction entries using List.reverseRecOn with
  | nil => rfl
  | append_singleton entries entry ih =>
      have hmem : entry.1 ∈ (ofList entries).map Prod.fst ↔ entry.1 ∈ entries.map Prod.fst := by
        rw [ih, List.mem_eraseDups]
      rw [ofList_append_singleton, List.map_append, List.eraseDups_append, ← ih]
      by_cases hkey : entry.1 ∈ entries.map Prod.fst
      · rw [map_fst_insert_of_mem (hmem.mpr hkey)]
        simp [List.removeAll, hkey]
      · rw [insert_of_not_mem (mt hmem.mp hkey)]
        simp [List.removeAll, hkey, List.eraseDups_cons]

/-- The value of a key is the one that came last. -/
theorem get?_ofList (entries : List (String × Object)) (key : String) :
    (ofList entries).get? key = get? entries.reverse key := by
  induction entries using List.reverseRecOn with
  | nil => rfl
  | append_singleton entries entry ih =>
      rw [ofList_append_singleton, get?_insert, ih, List.reverse_append]
      by_cases hkey : entry.1 = key <;> simp [get?, hkey]

/-- Entries with distinct keys are a dictionary as they stand. -/
theorem ofList_of_nodup {entries : List (String × Object)} (h : (entries.map Prod.fst).Nodup) :
    ofList entries = entries := by
  induction entries using List.reverseRecOn with
  | nil => rfl
  | append_singleton entries entry ih =>
      rw [List.map_append, List.nodup_append] at h
      obtain ⟨hentries, -, hnew⟩ := h
      rw [ofList_append_singleton, ih hentries]
      exact insert_of_not_mem (fun hmem => hnew _ hmem _ (List.mem_singleton_self _) rfl) _

end Dict

end ContentStream
