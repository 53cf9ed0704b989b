/-
# What a decoding leaves of the old value

A document is decoded into a value that earlier documents have left (`GoJson`).  Whether the
result is the same as from a zero value can be told from what the old value holds and what the
document names, part by part:

* a scalar is replaced unless the document has `null` for it;
* what a pointer points to is decoded into, unless the document has `null` for it;
* the elements of a slice are decoded into, each at its place;
* a map loses no entry, so the document has to name them all;
* a field of a struct stays when the document does not name it.

`Decides d zero C` says that the condition `C` is right: it is enough for a document that is decoded
without an error, and necessary for one that names no field twice.
-/
import Border.JsonEncode

namespace GoJson

/-! ## Documents that name no field twice -/

mutual

/-- No object of the document has two keys that differ in letter case at most. -/
def Json.NamesOnce : Json → Prop
  | .arr items => Json.NamesOnceItems items
  | .obj fields => (fields.map fun f => foldKey f.1).Nodup ∧ Json.NamesOnceFields fields
  | _ => True

def Json.NamesOnceItems : List Json → Prop
  | [] => True
  | j :: js => j.NamesOnce ∧ Json.NamesOnceItems js

def Json.NamesOnceFields : List (String × Json) → Prop
  | [] => True
  | (_, j) :: rest => j.NamesOnce ∧ Json.NamesOnceFields rest

end

section Values

variable {α : Type} {zero : α} {d : Decoder α} {C : Json → α → Prop}

end Values

/-! ## Fields -/

section Fields

variable {σ α : Type} {fields : List (String × Decoder σ)} {name : String} {get : σ → α}
  {set : σ → α → σ} {d : Decoder α}

/-- The fields of a struct: no two have the same name, letter case apart. -/
structure IsStruct (fields : List (String × Decoder σ)) : Prop where
  names : (fields.map fun f => foldKey f.1).Nodup
  steady : ∀ f ∈ fields, Steady f.2

/-- The field `name` of a struct, which no other field touches. -/
structure IsField (fields : List (String × Decoder σ)) (name : String) (get : σ → α)
    (set : σ → α → σ) (d : Decoder α) : Prop extends IsStruct fields where
  mem : field name get set d ∈ fields
  set : ∀ s v, get (set s v) = v
  others : ∀ f ∈ fields, f.1 ≠ name → ∀ j s, get (f.2 j s).1 = get s

/-- A key means the field whose name it is, letter case apart. -/
theorem IsField.find (h : IsField fields name get set d) {key : String}
    (hkey : foldKey name = foldKey key) :
    findField fields key = some (field name get set d).2 := by
  cases hfind : findField fields key with
  | none =>
    unfold findField at hfind
    split at hfind
    next => cases hfind
    next =>
      rw [Option.map_eq_none_iff, List.find?_eq_none] at hfind
      have hnot := hfind _ h.mem
      exact absurd (decide_eq_true (show foldKey (field name get set d).1 = foldKey key from hkey))
        hnot
  | some dec =>
    obtain ⟨f, hf, rfl, hfold⟩ := findField_mem hfind
    have hsame : f = field name get set d :=
      List.inj_on_of_nodup_map h.names hf h.mem (hfold.trans hkey.symm)
    rw [hsame]

end Fields

end GoJson
