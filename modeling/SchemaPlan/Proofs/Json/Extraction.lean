import SchemaPlan.Proofs.Json.Growth
import SchemaPlan.Proofs.Json.Reader

/-!
# What readers take from a value

A reader that gives a result has met no fault, so its tree stands for a value. What the result says
about that value is told for each kind of reader, and for records by the members under each key.
-/

namespace SchemaPlan.Json

variable {α β κ σ : Type}

/-- The reader meets no fault when it gives a result, and the result fits the value it was read
from. -/
def Gives (r : Reader α) (P : Content → α → Prop) : Prop :=
  ∀ t a, r t = .ok a → t.Whole ∧ ∀ v, Stands t v → P v a

/-- The value is a string. -/
inductive Content.IsString : Content → String → Prop
  | string {raw s} : Names raw s → IsString (.atom (.string raw)) s

theorem Content.IsString.unique {v : Content} {s s' : String} (h : v.IsString s)
    (h' : v.IsString s') : s = s' := by
  cases h with
  | string names =>
    cases h' with
    | string names' => exact names.unique names'

theorem gives_string : Gives Reader.string Content.IsString := by
  intro t s read
  unfold Reader.string at read
  split at read
  · next reading _ _ =>
    refine ⟨rfl, fun v stands => ?_⟩
    cases stands with
    | scalar stands =>
      cases stands with
      | string names => exact .string (names s read)
  · cases read

theorem Gives.checked {r : Reader α} {P : Content → α → Prop} (h : Gives r P)
    (check : α → Except Cause β) :
    Gives (r.checked check) fun v b => ∃ a, P v a ∧ check a = .ok b := by
  intro t b read
  unfold Reader.checked at read
  split at read
  · cases read
  · next a found =>
    obtain ⟨whole, fits⟩ := h t a found
    exact ⟨whole, fun v stands => ⟨a, fits v stands, mapError_eq_ok_iff.mp read⟩⟩

theorem Gives.imp {r : Reader α} {P Q : Content → α → Prop} (h : Gives r P)
    (step : ∀ v a, P v a → Q v a) : Gives r Q := by
  intro t a read
  obtain ⟨whole, fits⟩ := h t a read
  exact ⟨whole, fun v stands => step v a (fits v stands)⟩

theorem Gives.items {r : Reader α} {P : Content → α → Prop} (h : Gives r P) (is : Items)
    {as : List α} (read : r.items is = .ok as) :
    is.Whole ∧ ∀ vs, StandsItems is vs → List.Forall₂ P vs as := by
  fun_induction Reader.items r is generalizing as with
  | case1 =>
    cases read
    refine ⟨rfl, fun vs stands => ?_⟩
    cases stands
    exact .nil
  | case2 => cases read
  | case3 => cases read
  | case4 t settled rest a found ih =>
    obtain ⟨more, readRest, rfl⟩ := map_eq_ok_iff.mp read
    obtain ⟨whole, fits⟩ := h t a found
    obtain ⟨wholeRest, fitsRest⟩ := ih readRest
    refine ⟨Items.whole_item.mpr ⟨whole, wholeRest⟩, fun vs stands => ?_⟩
    cases stands with
    | item first tail => exact .cons (fits _ first) (fitsRest _ tail)

/-- The value is an array, with items of some kind. -/
inductive Content.IsArray (P : Content → α → Prop) : Content → List α → Prop
  | array {vs as} : List.Forall₂ P vs as → IsArray P (.array vs) as

theorem Gives.list {r : Reader α} {P : Content → α → Prop} (h : Gives r P) :
    Gives r.list (Content.IsArray P) := by
  intro t as read
  unfold Reader.list at read
  split at read
  · obtain ⟨whole, fits⟩ := h.items _ read
    refine ⟨Tree.whole_array.mpr whole, fun v stands => ?_⟩
    cases stands with
    | array stands => exact .array (fits _ stands)
  · cases read

/-- The value is an object with keys and values of some kind, in this order. -/
inductive Content.IsMap (K : String → κ → Prop) (P : Content → α → Prop) :
    Content → List (κ × α) → Prop
  | object {ms entries} :
      List.Forall₂ (fun m e => (∃ s, Names m.1 s ∧ K s e.1) ∧ P m.2 e.2) ms entries →
      IsMap K P (.object ms) entries

theorem Gives.entries [DecidableEq κ] {key : String → Except Cause κ} {text : κ → String}
    {r : Reader α} {P : Content → α → Prop} (h : Gives r P) (done : List (κ × α)) (ms : Members)
    {entries : List (κ × α)} (read : r.entries key text done ms = .ok entries) :
    ∃ more, entries = done ++ more ∧ ms.Whole ∧ ∀ es, StandsMembers ms es →
      List.Forall₂ (fun m e => (∃ s, Names m.1 s ∧ key s = .ok e.1) ∧ P m.2 e.2) es more := by
  fun_induction Reader.entries key text r done ms with
  | case1 =>
    cases read
    refine ⟨[], (List.append_nil _).symm, rfl, fun es stands => ?_⟩
    cases stands
    exact .nil
  | case7 done _ _ t _ rest name k named a found _ ih =>
    obtain ⟨more, rfl, wholeRest, fitsRest⟩ := ih read
    obtain ⟨whole, fits⟩ := h t a found
    refine ⟨(k, a) :: more, by simp, Members.whole_member.mpr ⟨whole, wholeRest⟩, ?_⟩
    intro es stands
    cases stands with
    | member key first tail =>
      exact .cons ⟨⟨name, key name rfl, named⟩, fits _ first⟩ (fitsRest _ tail)
  | _ => cases read

theorem Gives.map [DecidableEq κ] {key : String → Except Cause κ} {text : κ → String}
    {r : Reader α} {P : Content → α → Prop} (h : Gives r P) :
    Gives (r.map key text) (Content.IsMap (fun s k => key s = .ok k) P) := by
  intro t entries read
  unfold Reader.map at read
  split at read
  · obtain ⟨more, rfl, whole, fits⟩ := h.entries [] _ read
    refine ⟨Tree.whole_object.mpr whole, fun v stands => ?_⟩
    cases stands with
    | object stands => exact .object (fits _ stands)
  · cases read

/-- The members of a record under their keys. An array has the first few of them, in their order. -/
inductive Content.IsRecord (keys : List String) : Content → List (String × Content) → Prop
  | object {ms es} : List.Forall₂ (fun m e => Names m.1 e.1 ∧ m.2 = e.2) ms es →
      IsRecord keys (.object ms) es
  | array {vs} : vs.length ≤ keys.length → IsRecord keys (.array vs) (keys.zip vs)

theorem Content.IsRecord.unique {keys : List String} {v : Content}
    {es es' : List (String × Content)} (h : v.IsRecord keys es) (h' : v.IsRecord keys es') :
    es = es' := by
  cases h with
  | object named =>
    cases h' with
    | object named' =>
      refine List.right_unique_forall₂' ?_ named named'
      rintro ⟨raw, v⟩ ⟨s, w⟩ ⟨s', w'⟩ ⟨names, rfl⟩ ⟨names', rfl⟩
      obtain rfl : s = s' := Names.unique names names'
      rfl
  | array =>
    cases h'
    rfl

/-- What holds of the members of a record holds however they were found. -/
theorem Content.IsRecord.property {keys : List String} {v : Content} {es : List (String × Content)}
    {Q : List (String × Content) → Prop} (record : v.IsRecord keys es)
    (h : ∃ es, v.IsRecord keys es ∧ Q es) : Q es := by
  obtain ⟨es', record', property⟩ := h
  rwa [record.unique record']

/-- What stands under a key. -/
def valuesOf (key : String) (es : List (String × Content)) : List Content :=
  (es.filter (·.1 = key)).map Prod.snd

@[simp] theorem valuesOf_nil (key : String) : valuesOf key [] = [] := rfl

theorem valuesOf_concat_self (key : String) (es : List (String × Content)) (v : Content) :
    valuesOf key (es ++ [(key, v)]) = valuesOf key es ++ [v] := by
  simp [valuesOf]

theorem valuesOf_concat_of_ne {key other : String} (h : other ≠ key)
    (es : List (String × Content)) (v : Content) :
    valuesOf key (es ++ [(other, v)]) = valuesOf key es := by
  simp [valuesOf, h]

/-- One value stands under a key, and is read as `a`. -/
def Once (P : Content → α → Prop) (vs : List Content) (a : α) : Prop := ∃ v, vs = [v] ∧ P v a

/-- One value, or none, which is then read as `absent`. -/
def AtMostOnce (P : Content → α → Prop) (absent : α) (vs : List Content) (a : α) : Prop :=
  vs = [] ∧ a = absent ∨ Once P vs a

section Once

variable {P : Content → α → Prop} {vs : List Content} {absent a : α}

theorem Once.of_mem (h : Once P vs a) {v : Content} (hv : v ∈ vs) : P v a := by
  obtain ⟨w, rfl, fits⟩ := h
  rwa [List.mem_singleton.mp hv]

theorem AtMostOnce.of_mem (h : AtMostOnce P absent vs a) {v : Content} (hv : v ∈ vs) : P v a := by
  obtain ⟨rfl, -⟩ | once := h
  · cases hv
  · exact once.of_mem hv

theorem AtMostOnce.map {P : Content → β → Prop} {g : α → β}
    (h : AtMostOnce (fun v a => P v (g a)) absent vs a) : AtMostOnce P (g absent) vs (g a) := by
  obtain ⟨none, rfl⟩ | ⟨v, one, fits⟩ := h
  · exact .inl ⟨none, rfl⟩
  · exact .inr ⟨v, one, fits⟩

end Once

/-- What was read so far of the values under a key. -/
def Held (P : Content → α → Prop) (key : String) (es : List (String × Content)) (o : Option α) :
    Prop :=
  List.Forall₂ P (valuesOf key es) o.toList

section Held

variable {P : Content → α → Prop} {key : String} {es : List (String × Content)} {o : Option α}

theorem Held.empty (h : Held P key es o) (none : o.isSome = false) : valuesOf key es = [] := by
  cases o with
  | none => exact List.forall₂_nil_right_iff.mp h
  | some a => cases none

theorem Held.other (h : Held P key es o) {other : String} (different : other ≠ key) (v : Content) :
    Held P key (es ++ [(other, v)]) o := by
  unfold Held
  rw [valuesOf_concat_of_ne different]
  exact h

theorem held_some (empty : valuesOf key es = []) {v : Content} {a : α} (h : P v a) :
    Held P key (es ++ [(key, v)]) (some a) := by
  unfold Held
  rw [valuesOf_concat_self, empty]
  exact .cons h .nil

theorem Held.once {a : α} (h : Held P key es (some a)) : Once P (valuesOf key es) a := by
  obtain ⟨v, rest, fits, none, same⟩ := List.forall₂_cons_right_iff.mp h
  cases none
  exact ⟨v, same, fits⟩

theorem Held.atMostOnce (h : Held P key es o) (absent : α) :
    AtMostOnce P absent (valuesOf key es) (o.getD absent) := by
  cases o with
  | none => exact .inl ⟨h.empty rfl, rfl⟩
  | some a => exact .inr h.once

end Held

theorem Gives.fill {r : Reader α} {P : Content → α → Prop} (h : Gives r P) {key : String}
    {part? : σ → Option α} {put : σ → α → σ} (s : σ) :
    Gives ((Slot.of key part? put r).fill s) fun v s' => ∃ a, P v a ∧ s' = put s a := by
  intro t s' filled
  obtain ⟨a, found, rfl⟩ := map_eq_ok_iff.mp filled
  obtain ⟨whole, fits⟩ := h t a found
  exact ⟨whole, fun v stands => ⟨a, fits v stands, rfl⟩⟩

/-- The state of a record under way tells which members were read. -/
structure RecordFormat.Tracks (f : RecordFormat σ α) (inv : List (String × Content) → σ → Prop) :
    Prop where
  distinct : (f.slots.map Slot.key).Nodup
  start : inv [] f.start
  other {es s key v} : key ∉ f.slots.map Slot.key → inv es s → inv (es ++ [(key, v)]) s
  empty {slot es s} : slot ∈ f.slots → inv es s → slot.isFilled s = false →
    valuesOf slot.key es = []
  fill {slot s} : slot ∈ f.slots → Gives (slot.fill s) fun v s' =>
    ∀ es, inv es s → valuesOf slot.key es = [] → inv (es ++ [(slot.key, v)]) s'

namespace RecordFormat.Tracks

variable {f : RecordFormat σ α} {inv : List (String × Content) → σ → Prop}

theorem named (h : f.Tracks inv) (s : σ) (ms : Members) {a : α} (read : f.named s ms = .ok a) :
    ms.Whole ∧ ∀ es raws, inv es s → StandsMembers ms raws → ∃ more s',
      List.Forall₂ (fun m e => Names m.1 e.1 ∧ m.2 = e.2) raws more ∧ inv (es ++ more) s' ∧
        f.finish s' = .ok a := by
  fun_induction RecordFormat.named f s ms with
  | case1 s =>
    refine ⟨rfl, fun es raws hs stands => ?_⟩
    cases stands
    exact ⟨[], s, .nil, by rwa [List.append_nil], mapError_eq_ok_iff.mp read⟩
  | case5 s _ _ t _ rest key none skipped ih =>
    obtain ⟨wholeRest, fits⟩ := ih read
    refine ⟨Members.whole_member.mpr ⟨skipped, wholeRest⟩, fun es raws hs stands => ?_⟩
    have unknown : key ∉ f.slots.map Slot.key := by
      intro known
      obtain ⟨slot, hslot, rfl⟩ := List.mem_map.mp known
      simpa using List.find?_eq_none.mp none slot hslot
    cases stands with
    | @member _ raw _ _ _ v _ _ more name _ tail =>
      obtain ⟨more, s', keys, hs', finish⟩ := fits _ _ (h.other (v := v) unknown hs) tail
      refine ⟨(key, v) :: more, s', .cons ⟨name key rfl, rfl⟩ keys, ?_, finish⟩
      rwa [List.append_assoc, List.singleton_append] at hs'
  | case8 s _ _ t _ rest key slot found vacant s' filled ih =>
    have hslot : slot ∈ f.slots := List.mem_of_find?_eq_some found
    obtain rfl : slot.key = key := by simpa using List.find?_some found
    obtain ⟨whole, fills⟩ := h.fill hslot t s' filled
    obtain ⟨wholeRest, fits⟩ := ih read
    refine ⟨Members.whole_member.mpr ⟨whole, wholeRest⟩, fun es raws hs stands => ?_⟩
    cases stands with
    | @member _ raw _ _ _ v _ _ more name first tail =>
      have empty := h.empty hslot hs (Bool.eq_false_iff.mpr vacant)
      obtain ⟨more, s'', keys, hs'', finish⟩ := fits _ _ (fills v first es hs empty) tail
      refine ⟨(slot.key, v) :: more, s'', .cons ⟨name slot.key rfl, rfl⟩ keys, ?_, finish⟩
      rwa [List.append_assoc, List.singleton_append] at hs''
  | _ => cases read

theorem positional (h : f.Tracks inv) (s : σ) (settled : Mark) (slots : List (Slot σ)) (is : Items)
    (sub : slots ⊆ f.slots) (distinct : (slots.map Slot.key).Nodup) {a : α}
    (read : f.positional s settled slots is = .ok a) :
    is.Whole ∧ ∀ es vs, inv es s → (∀ slot ∈ slots, valuesOf slot.key es = []) →
      StandsItems is vs → ∃ s', vs.length ≤ slots.length ∧
        inv (es ++ (slots.map Slot.key).zip vs) s' ∧ f.finish s' = .ok a := by
  fun_induction RecordFormat.positional f s settled slots is with
  | case1 s _ slots stop b finished =>
    cases read
    refine ⟨rfl, fun es vs hs _ stands => ?_⟩
    cases stands
    exact ⟨s, Nat.zero_le _, by simpa using hs, finished⟩
  | case5 s _ slot _ fault value =>
    obtain ⟨_, _, failed⟩ := bind_eq_ok_iff.mp read
    cases failed
  | case7 s _ slot slots t settled rest s' filled ih =>
    obtain ⟨single, distinct⟩ := List.nodup_cons.mp distinct
    have hslot : slot ∈ f.slots := sub List.mem_cons_self
    obtain ⟨whole, fills⟩ := h.fill hslot t s' filled
    obtain ⟨wholeRest, fits⟩ := ih (List.subset_of_cons_subset sub) distinct read
    refine ⟨Items.whole_item.mpr ⟨whole, wholeRest⟩, fun es vs hs fresh stands => ?_⟩
    obtain ⟨empty, fresh⟩ := List.forall_mem_cons.mp fresh
    cases stands with
    | @item _ v _ _ vs first tail =>
      -- Positions do not check what is filled; the keys of the format are distinct.
      have freshRest : ∀ other ∈ slots, valuesOf other.key (es ++ [(slot.key, v)]) = [] := by
        intro other hother
        rw [valuesOf_concat_of_ne]
        · exact fresh other hother
        · intro same
          exact single (same ▸ List.mem_map_of_mem hother)
      obtain ⟨s'', short, hs'', finish⟩ := fits _ _ (fills v first es hs empty) freshRest tail
      refine ⟨s'', Nat.succ_le_succ short, ?_, finish⟩
      rwa [List.append_assoc, List.singleton_append] at hs''
  | _ => cases read

/-- A record is read from its members. -/
theorem gives (h : f.Tracks inv) :
    Gives f.reader fun v a => ∃ es s, v.IsRecord (f.slots.map Slot.key) es ∧ inv es s ∧
      f.finish s = .ok a := by
  intro t a read
  unfold RecordFormat.reader at read
  split at read
  · obtain ⟨whole, fits⟩ := h.named _ _ read
    refine ⟨Tree.whole_object.mpr whole, fun v stands => ?_⟩
    cases stands with
    | object stands =>
      obtain ⟨es, s, keys, hs, finish⟩ := fits [] _ h.start stands
      exact ⟨es, s, .object keys, hs, finish⟩
  · obtain ⟨whole, fits⟩ := h.positional _ _ _ _ (List.Subset.refl _) h.distinct read
    refine ⟨Tree.whole_array.mpr whole, fun v stands => ?_⟩
    cases stands with
    | array stands =>
      obtain ⟨s, short, hs, finish⟩ := fits [] _ h.start (fun _ _ => rfl) stands
      exact ⟨_, s, .array (by simpa using short), hs, finish⟩
  · cases read

end RecordFormat.Tracks

/-- A record of two parts, each of which is filled apart from the other. -/
theorem RecordFormat.tracks_pair {f : RecordFormat σ α} {γ : Type} {key key' : String}
    {part? : σ → Option β} {part'? : σ → Option γ} {put : σ → β → σ} {put' : σ → γ → σ}
    {r : Reader β} {r' : Reader γ} {P : Content → β → Prop} {Q : Content → γ → Prop}
    (slots : f.slots = [.of key part? put r, .of key' part'? put' r']) (different : key ≠ key')
    (start : part? f.start = none ∧ part'? f.start = none)
    (fills : ∀ s b, part? (put s b) = some b ∧ part'? (put s b) = part'? s)
    (fills' : ∀ s c, part'? (put' s c) = some c ∧ part? (put' s c) = part? s)
    (h : Gives r P) (h' : Gives r' Q) :
    f.Tracks fun es s => Held P key es (part? s) ∧ Held Q key' es (part'? s) where
  distinct := by simpa [slots, Slot.of] using different
  start := by
    rw [start.1, start.2]
    exact ⟨.nil, .nil⟩
  other := by
    intro es s other v unknown held
    simp only [slots, Slot.of, List.map_cons, List.map_nil, List.mem_cons, List.not_mem_nil,
      or_false, not_or] at unknown
    exact ⟨held.1.other unknown.1 v, held.2.other unknown.2 v⟩
  empty := by
    intro slot es s hslot held vacant
    simp only [slots, List.mem_cons, List.not_mem_nil, or_false] at hslot
    rcases hslot with rfl | rfl
    · exact held.1.empty vacant
    · exact held.2.empty vacant
  fill := by
    intro slot s hslot
    simp only [slots, List.mem_cons, List.not_mem_nil, or_false] at hslot
    rcases hslot with rfl | rfl
    · refine (h.fill s).imp fun v s' filled es held empty => ?_
      obtain ⟨b, fits, rfl⟩ := filled
      obtain ⟨own, other⟩ := fills s b
      rw [own, other]
      exact ⟨held_some empty fits, held.2.other different v⟩
    · refine (h'.fill s).imp fun v s' filled es held empty => ?_
      obtain ⟨c, fits, rfl⟩ := filled
      obtain ⟨own, other⟩ := fills' s c
      rw [own, other]
      exact ⟨held.1.other different.symm v, held_some empty fits⟩

/-- What is decoded from a text fits the one value that the text is of. -/
theorem Gives.decode {r : Reader α} {P : Content → α → Prop} (h : Gives r P) {text : String} {a : α}
    (read : decode r text = .ok a) : (∃ v, Written text v) ∧ ∀ v, Written text v → P v a := by
  obtain ⟨t, grown, found⟩ := decode_eq_ok_iff.mp read
  obtain ⟨whole, fits⟩ := h t a found
  obtain ⟨v, written, stands⟩ := Tree.exists_written_of_ofText grown whole
  refine ⟨⟨v, written⟩, fun w written' => ?_⟩
  rw [written'.unique written]
  exact fits v stands

end SchemaPlan.Json
