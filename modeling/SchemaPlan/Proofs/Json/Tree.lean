import SchemaPlan.Json.Reader
import SchemaPlan.Proofs.Json.Token

/-!
# Trees of rendered values

The tokens of a value grow into a tree that stands for it. Marks are of no account.
-/

namespace SchemaPlan.Json

mutual

/-- The tree stands for the value. -/
inductive Denotes : Tree → Json → Prop
  | string {s start stop} : Denotes (.scalar (.string (.ok s)) start stop) (.string s)
  | array {start items vs} : DenotesItems items vs → Denotes (.array start items) (.array vs)
  | object {start members es} : DenotesMembers members es →
      Denotes (.object start members) (.object es)

inductive DenotesItems : Items → List Json → Prop
  | close {stop} : DenotesItems (.close stop) []
  | item {t v settled rest vs} : Denotes t v → DenotesItems rest vs →
      DenotesItems (.item t settled rest) (v :: vs)

inductive DenotesMembers : Members → List (String × Json) → Prop
  | close {stop} : DenotesMembers (.close stop) []
  | member {key stop settledKey t v settled rest es} : Denotes t v → DenotesMembers rest es →
      DenotesMembers (.member (.ok key) stop settledKey t settled rest) ((key, v) :: es)

end

namespace Tree

/-- The first of some tokens may start a value. -/
def Leads (ts : List Token) : Prop :=
  ∃ token more, ts = token :: more ∧ token.kind ≠ .endArray ∧ token.kind ≠ .finish

/-- The tokens of a value, where a value is expected, leave a tree that stands for it. -/
def Grows (v : Json) : Prop :=
  ∀ frames ts rest, ts.map Token.kind = v.kinds →
    Leads ts ∧ ∃ t, Denotes t v ∧ grow .value frames (ts ++ rest) = grow (.after t) frames rest

theorem grow_more {growth growth' : Growth} {frames frames' : List Frame} {token : Token}
    {rest : List Token} (h : step growth frames token rest.head? = .more growth' frames') :
    grow growth frames (token :: rest) = grow growth' frames' rest := by
  rw [grow, h]

/-- Tokens that begin and end with a bracket. -/
theorem exists_bracketed {ts : List Token} {opening closing : TokenKind} {inner : List TokenKind}
    (h : ts.map Token.kind = opening :: inner ++ [closing]) :
    ∃ first us last, ts = first :: (us ++ [last]) ∧ first.kind = opening ∧
      us.map Token.kind = inner ∧ last.kind = closing := by
  obtain ⟨first, _, rfl, hfirst, more⟩ := List.map_eq_cons_iff.mp h
  obtain ⟨us, _, rfl, hus, more⟩ := List.map_eq_append_iff.mp more
  obtain ⟨last, _, rfl, hlast, none⟩ := List.map_eq_cons_iff.mp more
  obtain rfl := List.map_eq_nil_iff.mp none
  exact ⟨first, us, last, rfl, hfirst, hus, hlast⟩

theorem grows_string (s : String) : Grows (.string s) := by
  intro frames ts rest hts
  obtain ⟨token, tail, rfl, kind, none⟩ := List.map_eq_cons_iff.mp hts
  obtain rfl := List.map_eq_nil_iff.mp none
  have kind : token.kind = .scalar (.string (.ok s)) := kind
  refine ⟨⟨token, [], rfl, by simp [kind], by simp [kind]⟩,
    .scalar (.string (.ok s)) token.start token.stop, .string, ?_⟩
  apply grow_more
  simp [step, stepValue, kind]

theorem grow_item {start : Mark} {done : List (Tree × Mark)} {frames : List Frame}
    {ts : List Token} (h : Leads ts) (rest : List Token) :
    grow (.item start done) frames (ts ++ rest) =
      grow .value (.array start done :: frames) (ts ++ rest) := by
  obtain ⟨token, more, rfl, notClose, notEnd⟩ := h
  have same : step (.item start done) frames token (more ++ rest).head? =
      step .value (.array start done :: frames) token (more ++ rest).head? := by
    cases hk : token.kind <;> simp_all [step]
  rw [List.cons_append, grow, grow, same]

theorem grow_firstItem {start : Mark} {frames : List Frame} {ts : List Token} (h : Leads ts)
    (rest : List Token) :
    grow (.firstItem start) frames (ts ++ rest) = grow (.item start []) frames (ts ++ rest) := by
  obtain ⟨token, more, rfl, notClose, notEnd⟩ := h
  have same : step (.firstItem start) frames token (more ++ rest).head? =
      step (.item start []) frames token (more ++ rest).head? := by
    cases hk : token.kind <;> simp_all [step]
  rw [List.cons_append, grow, grow, same]

theorem grow_items {items : List Json} (solid : items ≠ []) (h : ∀ v ∈ items, Grows v)
    (start : Mark) (done : List (Tree × Mark)) (frames : List Frame) {ts : List Token}
    {closing : Token} (rest : List Token) (hts : ts.map Token.kind = kindsOfItems items)
    (hc : closing.kind = .endArray) :
    Leads ts ∧ ∃ is, DenotesItems is items ∧
      grow (.item start done) frames (ts ++ closing :: rest) =
        grow (.after (.array start (.ofReversed is done))) frames rest := by
  induction items generalizing done ts with
  | nil => exact absurd rfl solid
  | cons v items ih =>
    obtain ⟨head, tail⟩ := List.forall_mem_cons.mp h
    cases items with
    | nil =>
      obtain ⟨leads, t, denotes, grown⟩ :=
        head (.array start done :: frames) ts (closing :: rest) hts
      refine ⟨leads, .item t closing.stop (.close closing.stop), .item denotes .close, ?_⟩
      rw [grow_item leads, grown]
      apply grow_more
      simp [step, stepAfter, hc, settledItem, Items.ofReversed]
    | cons w items =>
      obtain ⟨us, _, rfl, first, more⟩ := List.map_eq_append_iff.mp hts
      obtain ⟨comma, vs, rfl, hcomma, more⟩ := List.map_eq_cons_iff.mp more
      obtain ⟨leads, t, denotes, grown⟩ :=
        head (.array start done :: frames) us (comma :: (vs ++ closing :: rest)) first
      let settled := settledItem comma (vs ++ closing :: rest).head?
      obtain ⟨-, is, denotesRest, grownRest⟩ := ih (by simp) tail ((t, settled) :: done) more
      refine ⟨?_, .item t settled is, .item denotes denotesRest, ?_⟩
      · obtain ⟨token, after, rfl, starts⟩ := leads
        exact ⟨token, _, rfl, starts⟩
      · rw [List.append_assoc, List.cons_append, grow_item leads, grown]
        refine Eq.trans ?_ grownRest
        apply grow_more
        simp [step, stepAfter, hcomma, settled]

theorem grows_array {items : List Json} (h : ∀ v ∈ items, Grows v) : Grows (.array items) := by
  intro frames ts rest hts
  obtain ⟨opening, us, closing, rfl, hopening, inner, hclosing⟩ := exists_bracketed hts
  refine ⟨⟨opening, _, rfl, by simp [hopening], by simp [hopening]⟩, ?_⟩
  have opened : grow .value frames (opening :: (us ++ [closing]) ++ rest) =
      grow (.firstItem opening.start) frames (us ++ closing :: rest) := by
    rw [List.cons_append, List.append_assoc]
    apply grow_more
    simp [step, stepValue, hopening]
  rw [opened]
  cases items with
  | nil =>
    obtain rfl := List.map_eq_nil_iff.mp inner
    refine ⟨.array opening.start (.close closing.stop), .array .close, ?_⟩
    apply grow_more
    simp [step, hclosing]
  | cons v items =>
    obtain ⟨leads, is, denotes, grown⟩ :=
      grow_items (by simp) h opening.start [] frames rest inner hclosing
    refine ⟨.array opening.start is, .array denotes, ?_⟩
    rw [grow_firstItem leads, grown]
    rfl

theorem grow_firstKey {start : Mark} {frames : List Frame} {token : Token} {s : String}
    (h : token.kind = .string s) (rest : List Token) :
    grow (.firstKey start) frames (token :: rest) = grow (.key start []) frames (token :: rest) := by
  have kind : token.kind = .scalar (.string (.ok s)) := h
  have same : step (.firstKey start) frames token rest.head? =
      step (.key start []) frames token rest.head? := by
    simp [step, stepKey, kind]
  rw [grow, grow, same]

theorem grow_key {start : Mark} {done : List (Members → Members)} {frames : List Frame}
    {name colon : Token} {key : String} (hname : name.kind = .string key)
    (hcolon : colon.kind = .colon) (rest : List Token) :
    grow (.key start done) frames (name :: colon :: rest) =
      grow .value (.member start done (.ok key) name.stop (settledMember colon) :: frames) rest := by
  have kind : name.kind = .scalar (.string (.ok key)) := hname
  have named : grow (.key start done) frames (name :: colon :: rest) =
      grow (.colon start done (.ok key) name.stop (settledMember colon)) frames (colon :: rest) := by
    apply grow_more
    simp [step, stepKey, kind]
  rw [named]
  apply grow_more
  simp [step, hcolon]

theorem grow_members {members : List (String × Json)} (solid : members ≠ [])
    (h : ∀ e ∈ members, Grows e.2) (start : Mark) (done : List (Members → Members))
    (frames : List Frame) {ts : List Token} {closing : Token} (rest : List Token)
    (hts : ts.map Token.kind = kindsOfMembers members) (hc : closing.kind = .endObject) :
    ∃ ms, DenotesMembers ms members ∧
      grow (.key start done) frames (ts ++ closing :: rest) =
        grow (.after (.object start (.ofReversed ms done))) frames rest := by
  induction members generalizing done ts with
  | nil => exact absurd rfl solid
  | cons e members ih =>
    obtain ⟨key, v⟩ := e
    obtain ⟨head, tail⟩ := List.forall_mem_cons.mp h
    cases members with
    | nil =>
      obtain ⟨name, _, rfl, hname, more⟩ := List.map_eq_cons_iff.mp hts
      obtain ⟨colon, us, rfl, hcolon, value⟩ := List.map_eq_cons_iff.mp more
      obtain ⟨-, t, denotes, grown⟩ :=
        head (.member start done (.ok key) name.stop (settledMember colon) :: frames) us
          (closing :: rest) value
      refine ⟨.member (.ok key) name.stop (settledMember colon) t (settledMember closing)
        (.close closing.stop), .member denotes .close, ?_⟩
      rw [List.cons_append, List.cons_append, grow_key hname hcolon, grown]
      apply grow_more
      simp [step, stepAfter, hc, Members.ofReversed]
    | cons e members =>
      obtain ⟨name, _, rfl, hname, more⟩ := List.map_eq_cons_iff.mp hts
      obtain ⟨colon, _, rfl, hcolon, more⟩ := List.map_eq_cons_iff.mp more
      obtain ⟨us, _, rfl, value, more⟩ := List.map_eq_append_iff.mp more
      obtain ⟨comma, vs, rfl, hcomma, more⟩ := List.map_eq_cons_iff.mp more
      obtain ⟨-, t, denotes, grown⟩ :=
        head (.member start done (.ok key) name.stop (settledMember colon) :: frames) us
          (comma :: (vs ++ closing :: rest)) value
      let add := Members.member (.ok key) name.stop (settledMember colon) t (settledMember comma)
      obtain ⟨ms, denotesRest, grownRest⟩ := ih (by simp) tail (add :: done) more
      refine ⟨add ms, .member denotes denotesRest, ?_⟩
      rw [List.cons_append, List.cons_append, List.append_assoc, List.cons_append,
        grow_key hname hcolon, grown]
      refine Eq.trans ?_ grownRest
      apply grow_more
      simp [step, stepAfter, hcomma, add]

theorem grows_object {members : List (String × Json)} (h : ∀ e ∈ members, Grows e.2) :
    Grows (.object members) := by
  intro frames ts rest hts
  obtain ⟨opening, us, closing, rfl, hopening, inner, hclosing⟩ := exists_bracketed hts
  refine ⟨⟨opening, _, rfl, by simp [hopening], by simp [hopening]⟩, ?_⟩
  have opened : grow .value frames (opening :: (us ++ [closing]) ++ rest) =
      grow (.firstKey opening.start) frames (us ++ closing :: rest) := by
    rw [List.cons_append, List.append_assoc]
    apply grow_more
    simp [step, stepValue, hopening]
  rw [opened]
  cases members with
  | nil =>
    obtain rfl := List.map_eq_nil_iff.mp inner
    refine ⟨.object opening.start (.close closing.stop), .object .close, ?_⟩
    apply grow_more
    simp [step, hclosing]
  | cons e members =>
    obtain ⟨ms, denotes, grown⟩ :=
      grow_members (by simp) h opening.start [] frames rest inner hclosing
    refine ⟨.object opening.start ms, .object denotes, ?_⟩
    have starts : ∃ kinds, kindsOfMembers (e :: members) = .string e.1 :: kinds := by
      cases members with
      | nil => exact ⟨_, rfl⟩
      | cons => exact ⟨_, rfl⟩
    obtain ⟨kinds, starts⟩ := starts
    obtain ⟨name, tail, rfl, hname, -⟩ := List.map_eq_cons_iff.mp (inner.trans starts)
    rw [List.cons_append, grow_firstKey hname, ← List.cons_append, grown]
    rfl

/-- The tokens of a value that is built of strings grow into a tree that stands for it. -/
theorem grows {v : Json} (h : OfStrings v) : Grows v := by
  induction h with
  | string s => exact grows_string s
  | array _ ih => exact grows_array ih
  | object _ ih => exact grows_object ih

/-- The text of a value, with nothing but a line break after it, is read as a tree that stands for
the value. -/
theorem ofText_pretty {v : Json} (h : OfStrings v) :
    ∃ t, Denotes t v ∧ ofText (v.pretty 0 ++ "\n") = ⟨t, none⟩ := by
  obtain ⟨ts, m, scan, kinds⟩ := scans_pretty h 0 ['\n'] .start
  obtain ⟨-, t, denotes, grown⟩ := grows h [] ts (Token.scan ⟨['\n'], m⟩) kinds
  refine ⟨t, denotes, ?_⟩
  have text : (v.pretty 0 ++ "\n").toList = (v.pretty 0).toList ++ ['\n'] := by simp
  obtain ⟨none, m', finish, empty⟩ := scans_space (c := '\n') (by decide) [] m
  obtain rfl := List.map_eq_nil_iff.mp empty
  have last : Token.scan ⟨[], m'⟩ = [⟨.finish, m', m'⟩] := by rw [Token.scan]
  rw [ofText, text, scan, grown, show ['\n'] = ['\n'] ++ [] from rfl, finish, last]
  simp [grow, step, stepAfter]

end Tree

end SchemaPlan.Json
