import SchemaPlan.Proofs.Schema.AttributeSet
import SchemaPlan.Proofs.Source.Fault
import SchemaPlan.Proofs.Source.Verdict
import SchemaPlan.Proofs.Text.Blank

/-!
# Tags and stored attributes

A tag is taken apart at its first parenthesis, a stored attribute at fixed ends. Both ways of
reading give the same attribute, except that a stored default may be blank.
-/

namespace SchemaPlan

namespace Source

/-- What a lock file would hold for a tag: its text without the `@`. -/
def Token.stored (t : Token) : String := .ofList t.text.toList.tail

/-- A tag whose argument list, if there is one, closes. -/
def Token.IsWholeTag (t : Token) : Prop := t.kind = .tag ∧ TagText t.text.toList

/-- A default whose argument list holds nothing but blanks. -/
def Token.IsBlankDefault (t : Token) : Prop :=
  ∃ blank : String, t.text = "@default(" ++ blank ++ ")" ∧ ∀ c ∈ blank.toList, Text.isBlank c

theorem Token.stored_eq {t : Token} {s : String} (h : t.text = "@" ++ s) : t.stored = s := by
  simp [Token.stored, h]

/-- What a tag means is stored as its text without the `@`. -/
theorem Means.storedAs {t : Token} {a : Attribute} (h : Means t.text a) : a.StoredAs t.stored := by
  generalize text : t.text = s at h
  cases h with
  | flag f =>
    rw [Token.stored_eq text]
    exact .flag f.not_mem_name f.trim_name
  | @flagWith f arguments closing =>
    have whole : t.text = "@" ++ (f.name ++ "(" ++ (arguments ++ ")")) := by
      simp [text, String.append_assoc]
    rw [Token.stored_eq whole]
    exact .flagWith f.not_mem_name f.trim_name
  | @default arguments closing solid =>
    have whole : t.text = "@" ++ ("default(" ++ arguments ++ ")") := by
      simp [text, ← String.toList_inj]
    rw [Token.stored_eq whole]
    exact .default arguments

/-- A tag means what its text without the `@` is stored as, unless this is a blank default. -/
theorem means_of_storedAs {t : Token} {a : Attribute} (spelt : TagText t.text.toList)
    (valued : ¬ t.IsBlankDefault) (h : a.StoredAs t.stored) : Means t.text a := by
  obtain ⟨name, arguments?, spells⟩ := spelt.spells
  generalize text : t.text = s at spells
  cases spells with
  | bare identifier =>
    have noParen : '(' ∉ name.toList := not_mem_of_isIdentifier identifier (by decide)
    rw [Token.stored_eq text] at h
    cases h with
    | @flag f _ _ named =>
      obtain rfl : name = f.name := (trim_identifier ⟨name, identifier⟩).symm.trans named
      exact .flag f
    | default | flagWith => simp at noParen
  | @list _ arguments identifier closing =>
    have noParen : '(' ∉ name.toList := not_mem_of_isIdentifier identifier (by decide)
    have whole : t.text = "@" ++ (name ++ "(" ++ (arguments ++ ")")) := by
      simp [text, String.append_assoc]
    rw [Token.stored_eq whole] at h
    generalize stored : name ++ "(" ++ (arguments ++ ")") = s' at h
    cases h with
    | default value =>
      obtain ⟨rfl, rest⟩ := eq_default_of_paren noParen stored
      obtain rfl := (String.append_left_inj ")").mp rest
      have whole : "@" ++ "default" ++ "(" ++ arguments ++ ")" = "@default(" ++ arguments ++ ")" := by
        simp
      rw [whole] at text ⊢
      refine .default closing ?_
      by_contra blank
      push Not at blank
      exact valued ⟨arguments, text, blank⟩
    | flag bare => simp [← stored] at bare
    | @flagWith f name' arguments' bare named =>
      obtain ⟨rfl, -⟩ := append_paren_inj noParen bare stored
      obtain rfl : name = f.name := (trim_identifier ⟨name, identifier⟩).symm.trans named
      exact .flagWith f closing

theorem storedAttribute?_stored {t : Token} (text : TagText t.text.toList)
    (valued : ¬ t.IsBlankDefault) :
    AttributeSet.storedAttribute? t.stored = (Tag.ofText t.text).attribute? :=
  Option.ext fun a => by
    rw [AttributeSet.storedAttribute?_eq_some_iff, ← Tag.means_iff text]
    exact ⟨means_of_storedAs text valued, Means.storedAs⟩

/-- Tags are applied as their texts are read from a lock file: both give the same attributes in the
same order, or both fail at a second default. -/
theorem applyTags_agrees_ofStored (site : Site) {ts : List Token}
    (whole : ∀ t ∈ ts, t.IsWholeTag) (valued : ∀ t ∈ ts, ¬ t.IsBlankDefault) :
    (∃ set warnings, site.applyTags ∅ ts = .ok (set, warnings) ∧
      AttributeSet.ofStored (ts.map Token.stored) = .ok set) ∨
    ¬ Attribute.OneDefault (ts.filterMap fun t => (Tag.ofText t.text).attribute?) ∧
      (∃ t ∈ ts, site.applyTags ∅ ts =
        .error (.duplicateDefault site.model site.field t.line t.span)) ∧
      AttributeSet.ofStored (ts.map Token.stored) = .error .duplicateDefault := by
  have words : (ts.map Token.word).filterMap Word.attribute? =
      ts.filterMap fun t => (Tag.ofText t.text).attribute? := by
    rw [List.filterMap_map]
    apply List.filterMap_congr
    intro t ht
    exact if_pos (whole t ht).1
  have stored : AttributeSet.ofStored (ts.map Token.stored) =
      (∅ : AttributeSet).addAll (ts.filterMap fun t => (Tag.ofText t.text).attribute?) := by
    rw [AttributeSet.ofStored, AttributeSet.ofList, List.filterMap_map]
    congr 1
    apply List.filterMap_congr
    intro t ht
    exact storedAttribute?_stored (whole t ht).2 (valued t ht)
  have applies {set : AttributeSet} : (∃ warnings, site.applyTags ∅ ts = .ok (set, warnings)) ↔
      AttributeSet.ofStored (ts.map Token.stored) = .ok set := by
    rw [stored, ← words]
    exact Site.exists_applyTags_iff
  rcases applied : site.applyTags ∅ ts with e | ⟨set, warnings⟩
  · right
    have refused {set : AttributeSet} : AttributeSet.ofStored (ts.map Token.stored) ≠ .ok set := by
      intro ok
      obtain ⟨warnings, ok⟩ := applies.mpr ok
      rw [applied] at ok
      cases ok
    obtain ⟨t, ht, rfl⟩ := Site.duplicateDefault_of_applyTags applied
    refine ⟨fun one => ?_, ⟨t, ht, rfl⟩, ?_⟩
    · obtain ⟨set, members⟩ := AttributeSet.exists_members_eq_firsts one
      apply refused
      rw [stored]
      exact AttributeSet.ofList_eq_ok_iff.mpr ⟨one, members⟩
    · rcases outcome : AttributeSet.ofStored (ts.map Token.stored) with e | set
      · rw [AttributeSet.duplicateDefault_of_addAll outcome]
      · exact absurd outcome refused
  · left
    exact ⟨set, warnings, rfl, applies.mp ⟨warnings, applied⟩⟩

/-- Flags with arguments and repeated, unknown tags, a bare default and a value with blanks around
it are read alike; with a second value, both refuse. -/
theorem applyTags_of_mixed_tags :
    let tag (text : String) : Token := ⟨.tag, ⟨0, 0⟩, text, 1, 1⟩
    let tags := [tag "@primary(key)", tag "@index", tag "@check(a > 0)", tag "@default",
      tag "@primary", tag "@default( '@a (#' )", tag "@unique()"]
    let site : Site := ⟨"User", "age"⟩
    (∃ set warnings, site.applyTags ∅ tags = .ok (set, warnings) ∧
      AttributeSet.ofStored (tags.map Token.stored) = .ok set ∧
      set.members = [.flag .primary, .default "'@a (#'", .flag .unique]) ∧
    AttributeSet.ofStored ((tags ++ [tag "@default(1)"]).map Token.stored) =
      .error .duplicateDefault := by
  intro tag tags site
  have whole : ∀ t ∈ tags ++ [tag "@default(1)"], t.IsWholeTag := by
    simp only [tags, List.cons_append, List.nil_append, List.forall_mem_cons]
    have bare (name : List Char) (h : isIdentifier name) :
        (tag (.ofList ('@' :: name))).IsWholeTag :=
      ⟨rfl, by simpa [tag] using .bare h⟩
    have closed (name inner : List Char) (h : isIdentifier name)
        (inside : inner.all isArgument) :
        (tag (.ofList ('@' :: name ++ '(' :: inner ++ [')']))).IsWholeTag :=
      ⟨rfl, by simpa [tag] using TagText.closed h (List.all_eq_true.mp inside)⟩
    exact ⟨closed "primary".toList "key".toList (by decide) (by decide),
      bare "index".toList (by decide),
      closed "check".toList "a > 0".toList (by decide) (by decide),
      bare "default".toList (by decide), bare "primary".toList (by decide),
      closed "default".toList " '@a (#' ".toList (by decide) (by decide),
      closed "unique".toList [] (by decide) (by decide),
      closed "default".toList "1".toList (by decide) (by decide), by simp⟩
  have valued : ∀ t ∈ tags ++ [tag "@default(1)"], ¬ t.IsBlankDefault := by
    have solid : ∀ t ∈ tags ++ [tag "@default(1)"], t.text.toList.take 9 = "@default(".toList →
        (t.text.toList.drop 9).dropLast.any fun c => !Text.isBlank c := by decide
    rintro t ht ⟨blank, text, blanks⟩
    obtain ⟨c, hc, notBlank⟩ := List.any_eq_true.mp (solid t ht (by simp [text]))
    have isBlank := blanks c (by simpa [text] using hc)
    rw [isBlank] at notBlank
    cases notBlank
  have read : (AttributeSet.ofStored (tags.map Token.stored)).map AttributeSet.members =
      .ok [.flag .primary, .default "'@a (#'", .flag .unique] := by decide
  obtain ⟨stored, ok, members⟩ := map_eq_ok_iff.mp read
  constructor
  · rcases applyTags_agrees_ofStored site (fun t ht => whole t (List.mem_append_left _ ht))
      (fun t ht => valued t (List.mem_append_left _ ht)) with ⟨set, warnings, applied, same⟩ | refused
    · rw [ok] at same
      cases same
      exact ⟨stored, warnings, applied, ok, members⟩
    · rw [ok] at refused
      cases refused.2.2
  · rcases applyTags_agrees_ofStored site whole valued with ⟨set, warnings, -, same⟩ | refused
    · have second : (AttributeSet.ofStored ((tags ++ [tag "@default(1)"]).map Token.stored)).isOk =
          false := by decide
      rw [same] at second
      cases second
    · exact refused.2.2

end Source

end SchemaPlan
