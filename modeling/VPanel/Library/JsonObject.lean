import Mathlib.Data.List.Perm.Basic
import Mathlib.Data.List.Nodup

/-!
# Flat JSON objects

An object with distinct keys is a list of entries whose order carries no
meaning: a dump may write the entries in any order, and a reader that looks
keys up cannot tell the difference.
-/

namespace JsonObject

inductive Value
  | number (n : ℕ)
  | boolean (b : Bool)
  | string (s : List Char)
  deriving DecidableEq

def Value.truthy : Value → Bool
  | .number n => n ≠ 0
  | .boolean b => b
  | .string s => s ≠ []

end JsonObject

/-- The entries of an object, keys in front. -/
abbrev JsonObject := List (String × JsonObject.Value)

namespace JsonObject

/-- The property with the given name; a missing one is `undefined`. -/
def get? (o : JsonObject) (key : String) : Option Value := o.lookup key

def truthy (o : JsonObject) (key : String) : Bool := ((o.get? key).map Value.truthy).getD false

def keys (o : JsonObject) : List String := o.map Prod.fst

theorem lookup_eq_some_iff {κ α : Type*} [BEq κ] [LawfulBEq κ] {o : List (κ × α)}
    (h : (o.map Prod.fst).Nodup) {key : κ} {v : α} : o.lookup key = some v ↔ (key, v) ∈ o := by
  induction o with
  | nil => simp
  | cons e o ih =>
      obtain ⟨k, w⟩ := e
      have hnodup := List.nodup_cons.mp h
      by_cases hk : key = k
      · subst hk
        have hfresh : ∀ u, (key, u) ∉ o := fun u hu ↦
          hnodup.1 (List.mem_map.mpr ⟨(key, u), hu, rfl⟩)
        simp [hfresh v, eq_comm]
      · have hlookup : ((k, w) :: o).lookup key = o.lookup key := by
          rw [List.lookup_cons, beq_eq_false_iff_ne.mpr hk]
        rw [hlookup, ih hnodup.2]
        simp [hk]

theorem get?_eq_some_iff {o : JsonObject} (h : o.keys.Nodup) {key : String} {v : Value} :
    o.get? key = some v ↔ (key, v) ∈ o :=
  lookup_eq_some_iff h

theorem get?_of_perm {o p : JsonObject} (h : o.Perm p) (hnodup : p.keys.Nodup) (key : String) :
    o.get? key = p.get? key := by
  have hnodup' : o.keys.Nodup := (h.map Prod.fst).nodup_iff.mpr hnodup
  apply Option.ext
  intro v
  rw [get?_eq_some_iff hnodup', get?_eq_some_iff hnodup, h.mem_iff]

theorem truthy_of_perm {o p : JsonObject} (h : o.Perm p) (hnodup : p.keys.Nodup)
    (key : String) : o.truthy key = p.truthy key := by
  rw [truthy, truthy, get?_of_perm h hnodup]

end JsonObject
