import SchemaPlan.Proofs.Source.Declaration

/-!
# What becomes of tags

A tag on the line of a field is kept as an attribute, or there is a warning of it. Which of the two is
told here by the text of the tag and the tags before it, without the attributes that were collected.
-/

namespace SchemaPlan.Source

/-- A tag is spelt as its name, alone or with a list of arguments. -/
inductive Spells : String → String → Option String → Prop
  | bare {name : String} : isIdentifier name.toList → Spells ("@" ++ name) name none
  | list {name arguments : String} : isIdentifier name.toList → ')' ∉ arguments.toList →
      Spells ("@" ++ name ++ "(" ++ arguments ++ ")") name (some arguments)

def Token.Says (t : Token) (k : Attribute.Kind) : Prop := ∃ a, Means t.text a ∧ a.kind = k

/-- There is a warning of arguments on a flag, be it kept or not. -/
def ignored (f : Flag) (arguments? : Option String) : List WarningKind :=
  (arguments?.map fun _ => .ignoredArguments f.name).toList

@[simp] theorem ignored_map (f : Flag) (arguments? : Option String) (g : String → String) :
    ignored f (arguments?.map g) = ignored f arguments? := by
  cases arguments? <;> rfl

/-- The attribute that is kept for a tag, behind the tags before it, and the warnings of the tag. -/
inductive Verdict (earlier : List Token) (t : Token) : Option Attribute → List WarningKind → Prop
  | flag {f : Flag} {arguments?} : Spells t.text f.name arguments? →
      (∀ e ∈ earlier, ¬ e.Says (.flag f)) →
      Verdict earlier t (some (.flag f)) (ignored f arguments?)
  | repeated {f : Flag} {arguments?} : Spells t.text f.name arguments? →
      (∃ e ∈ earlier, e.Says (.flag f)) →
      Verdict earlier t none (ignored f arguments? ++ [.duplicateAttribute f.name])
  | default {arguments} : Spells t.text "default" (some arguments) → Text.trim arguments ≠ "" →
      (∀ e ∈ earlier, ¬ e.Says .default) →
      Verdict earlier t (some (.default (Text.trim arguments))) []
  | missing {arguments?} : Spells t.text "default" arguments? →
      (∀ arguments, arguments? = some arguments → Text.trim arguments = "") →
      Verdict earlier t none [.missingDefaultValue]
  | unknown {name arguments?} : Spells t.text name arguments? → name ≠ "default" →
      (∀ f : Flag, name ≠ f.name) → Verdict earlier t none [.unknownAttribute name]

/-- The attributes that are kept for some tags, behind the tags before them, and the warnings of the
tags, one tag after the other. -/
inductive Account (site : Site) : List Token → List Token → List Attribute → List Warning → Prop
  | nil {earlier} : Account site earlier [] [] []
  | cons {earlier t ts kept? said as ws} : Verdict earlier t kept? said →
      Account site (earlier ++ [t]) ts as ws →
      Account site earlier (t :: ts) (kept?.toList ++ as)
        (said.map (⟨·, site.model, site.field, t.line, t.span⟩) ++ ws)

/-- The warning tells of a tag that was left out. -/
def Warning.isOfLoss (w : Warning) : Bool :=
  match w.kind with
  | .ignoredArguments _ => false
  | _ => true

/-- A tag is either kept or left out, and then there is one warning that tells of it. -/
theorem Verdict.kept_or_lost (site : Site) {earlier : List Token} {t : Token}
    {kept? : Option Attribute} {said : List WarningKind} (h : Verdict earlier t kept? said) :
    kept?.toList.length +
      (said.map (⟨·, site.model, site.field, t.line, t.span⟩)).countP Warning.isOfLoss = 1 := by
  have silent (f : Flag) (arguments? : Option String) :
      ((ignored f arguments?).map (⟨·, site.model, site.field, t.line, t.span⟩)).countP
        Warning.isOfLoss = 0 := by
    cases arguments? <;> rfl
  cases h with
  | flag => simp [silent]
  | repeated => simp [silent, Warning.isOfLoss]
  | default => rfl
  | missing => rfl
  | unknown => rfl

theorem Account.length_eq {site : Site} {earlier ts : List Token} {as : List Attribute}
    {ws : List Warning} (h : Account site earlier ts as ws) :
    ts.length = as.length + ws.countP Warning.isOfLoss := by
  induction h with
  | nil => rfl
  | cons verdict _ ih =>
    have one := verdict.kept_or_lost site
    simp only [List.length_cons, List.length_append, List.countP_append, ih]
    omega

theorem TagText.spells {s : String} (h : TagText s.toList) :
    ∃ name arguments?, Spells s name arguments? := by
  generalize hs : s.toList = cs at h
  cases h with
  | @bare name hname =>
    obtain rfl : s = "@" ++ .ofList name := by simp [← String.toList_inj, hs]
    exact ⟨_, _, .bare (by simpa using hname)⟩
  | @closed name inner hname hinner =>
    obtain rfl : s = "@" ++ .ofList name ++ "(" ++ .ofList inner ++ ")" := by
      simp [← String.toList_inj, hs]
    exact ⟨_, _, .list (by simpa using hname) (by simpa using not_mem_of_isArgument hinner)⟩

theorem Spells.ofText {s name : String} {arguments? : Option String} (h : Spells s name arguments?) :
    Tag.ofText s = ⟨name, arguments?.map Text.trim⟩ := by
  cases h with
  | bare hname => simp [Tag.ofText_bare hname (s := "@" ++ name) (by simp)]
  | @list name arguments hname harguments =>
    rw [Tag.ofText_closed name.toList arguments.toList hname harguments (by simp)]
    simp

theorem Token.says_iff {t : Token} (spelt : TagText t.text.toList) {k : Attribute.Kind} :
    t.Says k ↔ ∃ a, (Tag.ofText t.text).attribute? = some a ∧ a.kind = k := by
  simp only [Says, Tag.means_iff spelt]

namespace Site

variable {site : Site} {set set' : AttributeSet} {ws : List Warning}

/-- The attributes are of the kinds that the tags before say. -/
def Holds (set : AttributeSet) (earlier : List Token) : Prop :=
  ∀ k, set.HasKind k ↔ ∃ e ∈ earlier, e.Says k

theorem holds_empty : Holds ∅ [] := by simp [Holds, AttributeSet.HasKind]

theorem applyDefault_some (t : Token) (value : String) :
    site.applyDefault t set (some value) =
      if value = "" then .ok (set, [site.warn t .missingDefaultValue])
      else if set.HasKind .default then
        .error (.duplicateDefault site.model site.field t.line t.span)
      else .ok (set.insert (.default value), []) := by
  by_cases blank : value = ""
  · subst blank
    rfl
  · rw [if_neg blank]
    unfold applyDefault
    split
    · next missing => cases missing
    · next missing => exact absurd (Option.some.inj missing) blank
    · next found =>
      cases found
      rfl

theorem applyFlag_eq (t : Token) (f : Flag) (arguments? : Option String) :
    site.applyFlag t set f arguments? = (set.insert (.flag f),
      (ignored f arguments? ++
        if set.HasKind (.flag f) then [WarningKind.duplicateAttribute f.name] else []).map
          (site.warn t)) := by
  by_cases repeated : set.HasKind (.flag f)
  · rw [AttributeSet.members_insert_of_hasKind repeated]
    cases arguments? <;> simp [applyFlag, ignored, repeated]
  · cases arguments? <;> simp [applyFlag, ignored, repeated]

/-- A tag that is passed does what its verdict says. -/
theorem verdict_of_applyTag {earlier : List Token} {t : Token} (spelt : TagText t.text.toList)
    (holds : Holds set earlier) (h : site.applyTag t set = .ok (set', ws)) :
    ∃ kept? said, Verdict earlier t kept? said ∧ set'.members = set.members ++ kept?.toList ∧
      ws = said.map (site.warn t) := by
  obtain ⟨name, arguments?, spells⟩ := spelt.spells
  simp only [applyTag, spells.ofText] at h
  split at h
  · next isDefault =>
    subst isDefault
    cases arguments? with
    | none =>
      cases h
      exact ⟨none, _, .missing spells nofun, by simp, rfl⟩
    | some arguments =>
      rw [Option.map_some, applyDefault_some] at h
      split_ifs at h with blank second
      · cases h
        exact ⟨none, _, .missing spells (fun _ e => Option.some.inj e ▸ blank), by simp, rfl⟩
      · cases h
        have first : ∀ e ∈ earlier, ¬ e.Says .default := by
          simpa using (holds .default).not.mp second
        exact ⟨_, _, .default spells blank first,
          AttributeSet.members_insert_of_not_hasKind second, rfl⟩
  · next other =>
    split at h
    · next f found =>
      obtain rfl := Flag.name_of_ofName? found
      rw [applyFlag_eq, ignored_map] at h
      split_ifs at h with second
      · cases h
        refine ⟨none, _, .repeated spells ((holds _).mp second), ?_, rfl⟩
        rw [AttributeSet.members_insert_of_hasKind second]
        simp
      · cases h
        have first : ∀ e ∈ earlier, ¬ e.Says (.flag f) := by
          simpa using (holds (.flag f)).not.mp second
        refine ⟨_, _, .flag spells first, AttributeSet.members_insert_of_not_hasKind second, ?_⟩
        rw [List.append_nil]
    · next found =>
      cases h
      exact ⟨none, _, .unknown spells other (Flag.ofName?_eq_none_iff.mp found), by simp, rfl⟩

/-- A tag with a verdict is passed. -/
theorem applyTag_of_verdict (site : Site) {earlier : List Token} {t : Token} {kept? : Option Attribute}
    {said : List WarningKind} (holds : Holds set earlier) (h : Verdict earlier t kept? said) :
    ∃ next : AttributeSet, next.members = set.members ++ kept?.toList ∧
      site.applyTag t set = .ok (next, said.map (site.warn t)) := by
  cases h with
  | @flag f arguments? spells first =>
    have fresh : ¬ set.HasKind (.flag f) := (holds _).not.mpr (by simpa using first)
    refine ⟨_, AttributeSet.members_insert_of_not_hasKind fresh, ?_⟩
    simp [applyTag, spells.ofText, applyFlag_eq, fresh]
  | @repeated f arguments? spells again =>
    have known : set.HasKind (.flag f) := (holds _).mpr again
    refine ⟨set, by simp, ?_⟩
    simp [applyTag, spells.ofText, applyFlag_eq, known,
      AttributeSet.members_insert_of_hasKind (a := .flag f) known]
  | @default arguments spells solid first =>
    have fresh : ¬ set.HasKind .default := (holds _).not.mpr (by simpa using first)
    refine ⟨_, AttributeSet.members_insert_of_not_hasKind fresh, ?_⟩
    simp [applyTag, spells.ofText, applyDefault_some, solid, fresh]
  | @missing arguments? spells blank =>
    refine ⟨set, by simp, ?_⟩
    cases arguments? with
    | none => simp [applyTag, spells.ofText, applyDefault]
    | some arguments => simp [applyTag, spells.ofText, applyDefault_some, blank]
  | @unknown name arguments? spells other strange =>
    refine ⟨set, by simp, ?_⟩
    simp [applyTag, spells.ofText, other, Flag.ofName?_eq_none_iff.mpr strange]

theorem Holds.applyTag {earlier : List Token} {t : Token} (spelt : TagText t.text.toList)
    (holds : Holds set earlier) (h : site.applyTag t set = .ok (set', ws)) :
    Holds set' (earlier ++ [t]) := by
  have added := exists_applyTag_iff.mp ⟨ws, h⟩
  intro k
  simp only [List.mem_append, List.mem_singleton, or_and_right, exists_or, exists_eq_left, ← holds k,
    Token.says_iff spelt]
  cases meant : (Tag.ofText t.text).attribute? with
  | none =>
    rw [meant] at added
    cases added
    simp
  | some a =>
    rw [meant] at added
    have added : set' = set.insert a := by
      simp only [Option.toList_some, AttributeSet.addAll] at added
      split at added <;> cases added
      rfl
    simp [added, AttributeSet.hasKind_insert, eq_comm]

/-- Tags are passed one after the other exactly if there is an account of them. -/
theorem applyTags_eq_ok_iff {earlier ts : List Token}
    (spelt : ∀ t ∈ ts, t.kind = .tag → TagText t.text.toList) (holds : Holds set earlier) :
    site.applyTags set ts = .ok (set', ws) ↔
      ∃ as, Account site earlier (ts.filter (·.kind = .tag)) as ws ∧
        set'.members = set.members ++ as := by
  induction ts generalizing earlier set ws with
  | nil =>
    simp only [applyTags, List.filter_nil, Except.ok.injEq, Prod.mk.injEq]
    constructor
    · rintro ⟨rfl, rfl⟩
      exact ⟨[], .nil, by simp⟩
    · rintro ⟨as, ⟨⟩, members⟩
      exact ⟨AttributeSet.ext (by simpa using members.symm), rfl⟩
  | cons t ts ih =>
    obtain ⟨head, tail⟩ := List.forall_mem_cons.mp spelt
    unfold applyTags
    by_cases hk : t.kind = .tag
    · rw [if_pos hk, List.filter_cons_of_pos (by simpa using hk)]
      constructor
      · intro h
        obtain ⟨⟨next, first⟩, passed, h⟩ := bind_eq_ok_iff.mp h
        obtain ⟨⟨last, later⟩, rest, h⟩ := bind_eq_ok_iff.mp h
        cases h
        obtain ⟨kept?, said, verdict, members, rfl⟩ := verdict_of_applyTag (head hk) holds passed
        obtain ⟨as, account, members'⟩ := (ih tail (holds.applyTag (head hk) passed)).mp rest
        refine ⟨kept?.toList ++ as, .cons verdict account, ?_⟩
        rw [members', members, List.append_assoc]
      · rintro ⟨_, account, members⟩
        cases account with
        | @cons _ _ _ kept? said as ws verdict account =>
          obtain ⟨next, kept, passed⟩ := applyTag_of_verdict site holds verdict
          rw [← List.append_assoc, ← kept] at members
          have rest := (ih tail (holds.applyTag (head hk) passed)).mpr ⟨as, account, members⟩
          exact bind_eq_ok_iff.mpr ⟨_, passed, bind_eq_ok_iff.mpr ⟨_, rest, rfl⟩⟩
    · rw [if_neg hk, List.filter_cons_of_neg (by simpa using hk)]
      exact ih tail holds

end Site

end SchemaPlan.Source
