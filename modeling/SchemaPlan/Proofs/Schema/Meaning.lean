import Mathlib.Data.List.Basic
import SchemaPlan.Proofs.Runs
import SchemaPlan.Proofs.Schema.Document
import SchemaPlan.Proofs.Schema.Identifier
import SchemaPlan.Schema.AttributeSet

/-!
# What texts mean

The types and attributes that texts stand for, told by rules. Reading a text follows the rules.
-/

namespace SchemaPlan

/-- The type that is named by a bare word. A word that is no primitive's stands for itself. -/
inductive FieldType.NamedBy : FieldType → String → Prop
  | primitive (p : Primitive) : NamedBy (.primitive p) p.name
  | other {word : String} : (∀ p : Primitive, word ≠ p.name) → NamedBy (.other word) word

/-- The type that is stored as a text: a word, or a relationship with its target. -/
inductive FieldType.StoredAs : FieldType → String → Prop
  | word {type : FieldType} {s : String} : isIdentifier s.toList → type.NamedBy s → StoredAs type s
  | relation {target : Identifier} {inner : String} : target.text = Text.trim inner →
      StoredAs (.belongsTo target) ("belongsTo(" ++ inner ++ ")")

/-- The attribute that is stored as a text. A flag keeps its meaning with blanks around it, and with
whatever follows a parenthesis. -/
inductive Attribute.StoredAs : Attribute → String → Prop
  | default (value : String) : StoredAs (.default (Text.trim value)) ("default(" ++ value ++ ")")
  | flag {f : Flag} {name : String} : '(' ∉ name.toList → Text.trim name = f.name →
      StoredAs (.flag f) name
  | flagWith {f : Flag} {name arguments : String} : '(' ∉ name.toList → Text.trim name = f.name →
      StoredAs (.flag f) (name ++ "(" ++ arguments)

namespace FieldType

theorem ofName_eq_iff {word : String} {type : FieldType} :
    ofName word = type ↔ type.NamedBy word := by
  constructor
  · rintro rfl
    unfold ofName
    split
    · next p found => exact Primitive.name_of_ofName? found ▸ .primitive p
    · next unknown => exact .other (Primitive.ofName?_eq_none_iff.mp unknown)
  · intro named
    cases named with
    | primitive p => simp [ofName]
    | other unknown => simp [ofName, Primitive.ofName?_eq_none_iff.mpr unknown]

theorem ofText_word {s : String} (h : isIdentifier s.toList) : ofText s = .ok (ofName s) := by
  have bare : Text.between? "belongsTo(" ")" s = none := by
    apply Option.eq_none_iff_forall_ne_some.mpr
    intro target found
    have whole := Text.between?_eq_some_iff.mp found
    exact not_mem_of_isIdentifier h (c := '(') (by decide) (by simp [whole])
  rw [ofText, bare]
  exact if_pos h

theorem ofText_eq_ok_iff {s : String} {type : FieldType} :
    ofText s = .ok type ↔ type.StoredAs s := by
  constructor
  · intro h
    unfold ofText at h
    split at h
    · next inner found =>
      obtain ⟨target, named, rfl⟩ := map_eq_ok_iff.mp h
      rw [Text.between?_eq_some_iff.mp found]
      exact .relation (modelName_eq_ok_iff.mp named)
    · split_ifs at h with identifier
      cases h
      exact .word identifier (ofName_eq_iff.mp rfl)
  · intro stored
    cases stored with
    | word identifier named => rw [ofText_word identifier, ofName_eq_iff.mpr named]
    | @relation target inner named =>
      have found : Text.between? "belongsTo(" ")" ("belongsTo(" ++ inner ++ ")") = some inner :=
        Text.between?_eq_some_iff.mpr rfl
      simp only [ofText, found]
      exact map_eq_ok_iff.mpr ⟨target, modelName_eq_ok_iff.mpr named, rfl⟩

end FieldType

theorem Flag.name_injective {f g : Flag} (same : f.name = g.name) : f = g := by
  have found := ofName?_name f
  rw [same, ofName?_name] at found
  exact (Option.some.inj found).symm

theorem Flag.trim_name (f : Flag) : Text.trim f.name = f.name :=
  trim_identifier ⟨f.name, isIdentifier_flagName f⟩

theorem Flag.not_mem_name (f : Flag) : '(' ∉ f.name.toList :=
  not_mem_of_isIdentifier (isIdentifier_flagName f) (by decide)

theorem Flag.ofName?_eq_none_of_paren {s : String} (paren : '(' ∈ s.toList) : ofName? s = none :=
  ofName?_eq_none_iff.mpr fun f same => f.not_mem_name (same ▸ paren)

/-- Two texts that are the same have the same before and behind their first parenthesis. -/
theorem append_paren_inj {name name' rest rest' : String} (bare : '(' ∉ name.toList)
    (bare' : '(' ∉ name'.toList) (same : name ++ "(" ++ rest = name' ++ "(" ++ rest') :
    name = name' ∧ rest = rest' := by
  have whole : name.toList ++ '(' :: rest.toList = name'.toList ++ '(' :: rest'.toList := by
    simpa [← String.toList_inj] using same
  have pieces := congrArg (List.splitOn '(') whole
  rw [List.splitOn_append_cons_self_of_not_mem bare,
    List.splitOn_append_cons_self_of_not_mem bare'] at pieces
  obtain rfl := String.toList_inj.mp (List.cons.inj pieces).1
  exact ⟨rfl, by simpa using same⟩

theorem eq_default_of_paren {name rest value : String} (bare : '(' ∉ name.toList)
    (same : name ++ "(" ++ rest = "default(" ++ value ++ ")") :
    name = "default" ∧ rest = value ++ ")" := by
  have split : "default(" ++ value ++ ")" = "default" ++ "(" ++ (value ++ ")") := by
    simp [← String.toList_inj]
  exact append_paren_inj bare (by decide) (same.trans split)

namespace AttributeSet

/-- The name of a text, which ends at the first parenthesis. -/
theorem takeWhile_bare {name : String} (bare : '(' ∉ name.toList) :
    name.toList.takeWhile (· ≠ '(') = name.toList := by
  apply List.takeWhile_eq_self_iff.mpr
  intro c hc
  simpa using fun e : c = '(' => bare (e ▸ hc)

theorem takeWhile_paren {name rest : String} (bare : '(' ∉ name.toList) :
    (name ++ "(" ++ rest).toList.takeWhile (· ≠ '(') = name.toList := by
  have whole : (name ++ "(" ++ rest).toList = name.toList ++ '(' :: rest.toList := by simp
  rw [whole, takeWhile_append_break (by simp), takeWhile_bare bare]

/-- A text that is no default is read by what stands before its first parenthesis. -/
theorem storedAttribute?_of_named {s name : String} {f : Flag}
    (before : s.toList.takeWhile (· ≠ '(') = name.toList) (named : Text.trim name = f.name)
    (other : ∀ value, s ≠ "default(" ++ value ++ ")")
    (flag : ∀ g : Flag, s = g.name → g = f) : storedAttribute? s = some (.flag f) := by
  have noDefault : Text.between? "default(" ")" s = none :=
    Option.eq_none_iff_forall_ne_some.mpr fun value found =>
      other value (Text.between?_eq_some_iff.mp found)
  unfold storedAttribute? Attribute.ofText
  cases found : Flag.ofName? s with
  | some g => simp [flag g (Flag.name_of_ofName? found).symm]
  | none => simp only [noDefault, before, String.ofList_toList, named, Flag.ofName?_name,
      Option.map_some]

/-- What is kept in a lock file for an attribute is read by the rules. -/
theorem storedAttribute?_eq_some_iff {s : String} {a : Attribute} :
    storedAttribute? s = some a ↔ a.StoredAs s := by
  constructor
  · intro h
    unfold storedAttribute? at h
    split at h
    · next found =>
      cases h
      unfold Attribute.ofText at found
      split at found
      · next f named =>
        cases found
        rw [← Flag.name_of_ofName? named]
        exact .flag f.not_mem_name f.trim_name
      · split at found
        · next value inner =>
          cases found
          rw [Text.between?_eq_some_iff.mp inner]
          exact .default value
        · cases found
    · obtain ⟨f, found, rfl⟩ := Option.map_eq_some_iff.mp h
      have named := Flag.name_of_ofName? found
      have bare : '(' ∉ s.toList.takeWhile (· ≠ '(') :=
        fun mem => by simpa using List.mem_takeWhile_imp mem
      have split := List.takeWhile_append_dropWhile (p := (· ≠ '(')) (l := s.toList)
      have stop := head?_dropWhile (p := (· ≠ '(')) s.toList
      generalize s.toList.takeWhile (· ≠ '(') = name at *
      cases rest : s.toList.dropWhile (· ≠ '(') with
      | nil =>
        rw [rest] at split
        obtain rfl : .ofList name = s := by simp [← String.toList_inj, ← split]
        exact .flag (by simpa using bare) named.symm
      | cons c arguments =>
        rw [rest] at split stop
        obtain rfl : c = '(' := by simpa using stop c rfl
        obtain rfl : .ofList name ++ "(" ++ .ofList arguments = s := by
          simp [← String.toList_inj, ← split]
        exact .flagWith (by simpa using bare) named.symm
  · intro stored
    cases stored with
    | default value =>
      have noFlag : Flag.ofName? ("default(" ++ value ++ ")") = none :=
        Flag.ofName?_eq_none_of_paren (by simp)
      have inner : Text.between? "default(" ")" ("default(" ++ value ++ ")") = some value :=
        Text.between?_eq_some_iff.mpr rfl
      simp only [storedAttribute?, Attribute.ofText, noFlag, inner]
    | flag bare named =>
      refine storedAttribute?_of_named (takeWhile_bare bare) named ?_ ?_
      · rintro value rfl
        simp at bare
      · rintro g rfl
        exact Flag.name_injective (g.trim_name.symm.trans named)
    | @flagWith f name arguments bare named =>
      refine storedAttribute?_of_named (takeWhile_paren bare) named (fun value same => ?_) ?_
      · obtain ⟨rfl, -⟩ := eq_default_of_paren bare same
        exact f.name_ne_default (named.symm.trans (by decide))
      · intro g same
        exact absurd (same ▸ g.not_mem_name) (by simp)

theorem told_storedAttribute? {texts : List String} {as : List Attribute} :
    Told (fun s a => a.StoredAs s) texts as ↔ texts.filterMap storedAttribute? = as :=
  told_iff fun _ _ _ => storedAttribute?_eq_some_iff.symm

end AttributeSet

end SchemaPlan
