import SchemaPlan.Proofs.Keys
import SchemaPlan.Schema.Error
import SchemaPlan.Schema.Identifier

/-!
# Filed values

Values under keys, in the order in which they were filed. A value has a name of its own, and nothing but
the way in which it was filed makes its key the same name.
-/

namespace SchemaPlan

abbrev Filing (α : Type) := List (Identifier × α)

namespace Filing

variable {α : Type}

def keys (r : Filing α) : List Identifier := r.map Prod.fst

def values (r : Filing α) : List α := r.map Prod.snd

/-- Keys are looked up by their texts. -/
def get? (r : Filing α) (s : String) : Option α := (r.find? (·.1.text == s)).map Prod.snd

def contains (r : Filing α) (s : String) : Bool := r.any (·.1.text == s)

/-- Files a value in the place of the one before it, or else at the end. -/
def put (r : Filing α) (key : Identifier) (a : α) : Filing α :=
  if key ∈ r.keys then r.map fun e => if e.1 = key then (key, a) else e else r ++ [(key, a)]

/-- Files values under their names one after the other, unless a name is there already. -/
def collect (name : α → Identifier) (repeated : Identifier → SchemaError) (r : Filing α) :
    List α → Except SchemaError (Filing α)
  | [] => .ok r
  | a :: rest =>
    if r.contains (name a).text then .error (repeated (name a))
    else collect name repeated (r.put (name a) a) rest

/-- Each value under its name. -/
def byName (name : α → Identifier) (as : List α) : Filing α := as.map fun a => (name a, a)

/-- Keys are the names of values, and what is looked up is what is filed. -/
structure Faithful (r : Filing α) (name : α → Identifier) : Prop where
  distinct : r.keys.Nodup
  named : r.keys = r.values.map name
  get? : ∀ s a, r.get? s = some a ↔ ∃ key, (key, a) ∈ r ∧ key.text = s
  isSome : ∀ s, (r.get? s).isSome = true ↔ ∃ key ∈ r.keys, key.text = s
  contains : ∀ s, r.contains s = true ↔ ∃ key ∈ r.keys, key.text = s

/-- What comes of values that are collected. The first name to come up again is the one refused. -/
inductive Collected (name : α → Identifier) (repeated : Identifier → SchemaError) (as : List α) :
    Except SchemaError (Filing α) → Prop
  | kept : (as.map name).Nodup → Collected name repeated as (.ok (byName name as))
  | refused {before a after} : as = before ++ a :: after → (before.map name).Nodup →
      name a ∈ before.map name → Collected name repeated as (.error (repeated (name a)))

variable {r : Filing α} {name : α → Identifier} {as : List α}

theorem get?_eq_some_iff (distinct : r.keys.Nodup) {s : String} {a : α} :
    r.get? s = some a ↔ ∃ key, (key, a) ∈ r ∧ key.text = s := by
  have texts : (r.map fun e => e.1.text).Nodup := by
    have injective : Function.Injective Identifier.text := fun _ _ => Identifier.ext
    have texts := distinct.map injective
    rwa [keys, List.map_map] at texts
  simp only [get?, Option.map_eq_some_iff, find?_key_eq_some_iff texts, Prod.exists]
  constructor
  · rintro ⟨key, _, found, rfl⟩
    exact ⟨key, found⟩
  · rintro ⟨key, found⟩
    exact ⟨key, a, found, rfl⟩

theorem isSome_get?_iff {s : String} :
    (r.get? s).isSome = true ↔ ∃ key ∈ r.keys, key.text = s := by
  simp [get?, keys]

theorem contains_iff {s : String} : r.contains s = true ↔ ∃ key ∈ r.keys, key.text = s := by
  simp [contains, keys]

theorem contains_text_iff {key : Identifier} : r.contains key.text = true ↔ key ∈ r.keys := by
  rw [contains_iff]
  constructor
  · rintro ⟨other, mem, same⟩
    exact Identifier.ext same ▸ mem
  · exact fun mem => ⟨key, mem, rfl⟩

theorem put_of_not_mem {key : Identifier} (fresh : key ∉ r.keys) (a : α) :
    r.put key a = r ++ [(key, a)] := if_neg fresh

theorem keys_byName : (byName name as).keys = as.map name := by
  simp [keys, byName]

theorem values_byName : (byName name as).values = as := by
  simp [values, byName, Function.comp_def]

theorem contains_byName {key : Identifier} :
    (byName name as).contains key.text = true ↔ key ∈ as.map name := by
  rw [contains_text_iff, keys_byName]

theorem put_byName {a : α} (fresh : name a ∉ as.map name) :
    (byName name as).put (name a) a = byName name (as ++ [a]) := by
  rw [put_of_not_mem (keys_byName ▸ fresh), byName, byName, List.map_append, List.map_singleton]

theorem get?_byName (key : Identifier) :
    (byName name as).get? key.text = as.find? (name · == key) := by
  have texts (a : α) : ((name a).text == key.text) = (name a == key) :=
    Bool.eq_iff_iff.mpr (by simp [Identifier.ext_iff])
  simp [get?, byName, List.find?_map, Function.comp_def, texts]

theorem faithful_byName (distinct : (as.map name).Nodup) : (byName name as).Faithful name := by
  rw [← keys_byName] at distinct
  exact
    { distinct
      named := by rw [keys_byName, values_byName]
      get? := fun _ _ => get?_eq_some_iff distinct
      isSome := fun _ => isSome_get?_iff
      contains := fun _ => contains_iff }

/-- What is filed under names, after some values with distinct names, is all of them or none. -/
theorem collected_append (repeated : Identifier → SchemaError) {done : List α}
    (distinct : (done.map name).Nodup) :
    Collected name repeated (done ++ as) (collect name repeated (byName name done) as) := by
  induction as generalizing done with
  | nil =>
    rw [List.append_nil]
    exact .kept distinct
  | cons a as ih =>
    rw [collect]
    split
    · next known => exact .refused rfl distinct (contains_byName.mp known)
    · next fresh =>
      rw [contains_byName] at fresh
      rw [put_byName fresh, List.append_cons]
      exact ih (nodup_keys_concat distinct fresh)

theorem collected_collect (name : α → Identifier) (repeated : Identifier → SchemaError)
    (as : List α) : Collected name repeated as (collect name repeated [] as) := by
  have none : (([] : List α).map name).Nodup := List.nodup_nil
  exact collected_append repeated none

end Filing

end SchemaPlan
