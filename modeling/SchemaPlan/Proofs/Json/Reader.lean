import Mathlib.Data.List.Forall2
import SchemaPlan.Proofs.Json.Tree
import SchemaPlan.Proofs.Keys
import SchemaPlan.Proofs.Result

/-!
# What readers give

A reader reads a value if it gives the same result for every tree that stands for the value. A reader
ensures a property if nothing it gives lacks it, whatever the tree.
-/

namespace SchemaPlan.Json

variable {α β κ σ : Type}

def Reads (r : Reader α) (v : Json) (a : α) : Prop := ∀ t, Denotes t v → r t = .ok a

theorem reads_string (s : String) : Reads Reader.string (.string s) s := by
  intro t h
  cases h
  rfl

theorem Reads.checked {r : Reader α} {v : Json} {a : α} {b : β} {check : α → Except Cause β}
    (h : Reads r v a) (passes : check a = .ok b) : Reads (r.checked check) v b := by
  intro t denotes
  simp [Reader.checked, h t denotes, passes, Except.mapError]

theorem reads_list {r : Reader α} {vs : List Json} {as : List α}
    (h : List.Forall₂ (Reads r) vs as) : Reads r.list (.array vs) as := by
  have items (is : Items) (denotes : DenotesItems is vs) : r.items is = .ok as := by
    induction h generalizing is with
    | nil =>
      cases denotes
      rfl
    | cons head _ ih =>
      cases denotes with
      | item first rest => simp [Reader.items, head _ first, ih _ rest, Except.map]
  intro t denotes
  cases denotes with
  | array denotes => exact items _ denotes

theorem reads_entries [DecidableEq κ] {key : String → Except Cause κ} {text : κ → String}
    {r : Reader α} {members : List (String × Json)} {entries : List (κ × α)}
    (h : List.Forall₂ (fun e k => key e.1 = .ok k.1 ∧ Reads r e.2 k.2) members entries)
    (done : List (κ × α)) (distinct : ((done ++ entries).map Prod.fst).Nodup) {ms : Members}
    (denotes : DenotesMembers ms members) :
    r.entries key text done ms = .ok (done ++ entries) := by
  induction h generalizing done ms with
  | nil =>
    cases denotes
    rw [Reader.entries, List.append_nil]
  | @cons e k members entries head _ ih =>
    obtain ⟨named, reads⟩ := head
    cases denotes with
    | @member _ _ _ t _ _ rest _ first tail =>
      have fresh : k.1 ∉ done.map Prod.fst := by
        rw [List.map_append, List.nodup_append] at distinct
        intro known
        exact distinct.2.2 k.1 known k.1 (by simp) rfl
      rw [← List.singleton_append, ← List.append_assoc] at distinct ⊢
      rw [← ih _ distinct tail, Reader.entries]
      simp only at named reads
      simp only [named, reads t first, if_neg fresh]

theorem reads_map [DecidableEq κ] {key : String → Except Cause κ} {text : κ → String}
    {r : Reader α} {members : List (String × Json)} {entries : List (κ × α)}
    (h : List.Forall₂ (fun e k => key e.1 = .ok k.1 ∧ Reads r e.2 k.2) members entries)
    (distinct : (entries.map Prod.fst).Nodup) :
    Reads (r.map key text) (.object members) entries := by
  intro t denotes
  cases denotes with
  | object denotes => exact reads_entries h [] distinct denotes

/-- Members that fill a record one after the other. -/
inductive Fills (f : RecordFormat σ α) : σ → List (String × Json) → σ → Prop
  | nil {s} : Fills f s [] s
  | cons {s s' s'' key v rest slot} : f.slots.find? (·.key == key) = some slot →
      slot.isFilled s = false → Reads (slot.fill s) v s' → Fills f s' rest s'' →
      Fills f s ((key, v) :: rest) s''

theorem named_of_fills {f : RecordFormat σ α} {members : List (String × Json)} {s s' : σ} {a : α}
    (h : Fills f s members s') (finish : f.finish s' = .ok a) {ms : Members}
    (denotes : DenotesMembers ms members) : f.named s ms = .ok a := by
  induction h generalizing ms with
  | nil =>
    cases denotes
    simp [RecordFormat.named, finish, Except.mapError]
  | cons found empty fills _ ih =>
    cases denotes with
    | member first rest => simp [RecordFormat.named, found, empty, fills _ first, ih finish rest]

theorem reads_record {f : RecordFormat σ α} {members : List (String × Json)} {s : σ} {a : α}
    (h : Fills f f.start members s) (finish : f.finish s = .ok a) :
    Reads f.reader (.object members) a := by
  intro t denotes
  cases denotes with
  | object denotes => exact named_of_fills h finish denotes

theorem required_eq_ok_iff {key : String} {o : Option α} {a : α} :
    required key o = .ok a ↔ o = some a := by
  cases o <;> simp [required]

/-- A text is decoded if a tree is read that goes to the end of the text. -/
theorem decode_eq_ok_iff {r : Reader α} {text : String} {a : α} :
    decode r text = .ok a ↔ ∃ t, Tree.ofText text = ⟨t, none⟩ ∧ r t = .ok a := by
  unfold decode
  rcases Tree.ofText text with ⟨t, trailing?⟩
  rcases read : r t with e | b
  · simp [read]
  · rcases trailing? with _ | token <;> simp [read]

/-- A value that is built of strings is decoded from its text. -/
theorem decode_pretty {r : Reader α} {v : Json} {a : α} (ofStrings : OfStrings v)
    (h : Reads r v a) : decode r (v.pretty 0 ++ "\n") = .ok a := by
  obtain ⟨t, denotes, text⟩ := Tree.ofText_pretty ofStrings
  exact decode_eq_ok_iff.mpr ⟨t, text, h t denotes⟩

def Ensures (r : Reader α) (p : α → Prop) : Prop := ∀ t a, r t = .ok a → p a

theorem ensures_checked {r : Reader α} {p : α → Prop} {q : β → Prop}
    {check : α → Except Cause β} (h : Ensures r p) (step : ∀ a b, p a → check a = .ok b → q b) :
    Ensures (r.checked check) q := by
  intro t b read
  unfold Reader.checked at read
  split at read
  · cases read
  · next a found => exact step a b (h t a found) (mapError_eq_ok_iff.mp read)

theorem ensures_map [DecidableEq κ] {key : String → Except Cause κ} {text : κ → String}
    {r : Reader α} {p : α → Prop} (h : Ensures r p) :
    Ensures (r.map key text) fun entries => ∀ e ∈ entries, p e.2 := by
  have all (done : List (κ × α)) (ms : Members) {entries : List (κ × α)}
      (hdone : ∀ e ∈ done, p e.2) (read : r.entries key text done ms = .ok entries) :
      ∀ e ∈ entries, p e.2 := by
    fun_induction Reader.entries key text r done ms with
    | case1 =>
      cases read
      exact hdone
    | case7 done _ _ value _ rest name k _ a found _ ih =>
      refine ih (fun e he => ?_) read
      rcases List.mem_append.mp he with he | he
      · exact hdone e he
      · obtain rfl := List.mem_singleton.mp he
        exact h value a found
    | _ => cases read
  intro t entries read
  unfold Reader.map at read
  split at read
  · exact all [] _ (by simp) read
  · cases read

theorem ensures_distinct_keys [DecidableEq κ] {key : String → Except Cause κ} {text : κ → String}
    {r : Reader α} : Ensures (r.map key text) fun entries => (entries.map Prod.fst).Nodup := by
  have all (done : List (κ × α)) (ms : Members) {entries : List (κ × α)}
      (hdone : (done.map Prod.fst).Nodup) (read : r.entries key text done ms = .ok entries) :
      (entries.map Prod.fst).Nodup := by
    fun_induction Reader.entries key text r done ms with
    | case1 =>
      cases read
      exact hdone
    | case7 done _ _ _ _ _ _ k _ _ _ fresh ih =>
      exact ih (nodup_keys_concat hdone fresh) read
    | _ => cases read
  intro t entries read
  unfold Reader.map at read
  split at read
  · exact all [] _ List.nodup_nil read
  · cases read

theorem ensures_record {f : RecordFormat σ α} {p : α → Prop} (inv : σ → Prop) (start : inv f.start)
    (fill : ∀ slot ∈ f.slots, ∀ s, inv s → Ensures (slot.fill s) inv)
    (finish : ∀ s a, inv s → f.finish s = .ok a → p a) : Ensures f.reader p := by
  have named (s : σ) (ms : Members) {a : α} (hs : inv s) (read : f.named s ms = .ok a) : p a := by
    fun_induction RecordFormat.named f s ms with
    | case1 s => exact finish s a hs (mapError_eq_ok_iff.mp read)
    | case5 s _ _ _ _ _ _ _ _ ih => exact ih hs read
    | case8 s _ _ value _ _ _ slot found _ s' filled ih =>
      exact ih (fill slot (List.mem_of_find?_eq_some found) s hs value s' filled) read
    | _ => cases read
  have positional (s : σ) (settled : Mark) (slots : List (Slot σ)) (is : Items)
      (sub : slots ⊆ f.slots) {a : α} (hs : inv s)
      (read : f.positional s settled slots is = .ok a) : p a := by
    fun_induction RecordFormat.positional f s settled slots is with
    | case1 s _ _ _ b finished =>
      cases read
      exact finish s _ hs finished
    | case5 s _ slot _ fault value =>
      obtain ⟨_, _, failed⟩ := bind_eq_ok_iff.mp read
      cases failed
    | case7 s _ slot slots value _ _ s' filled ih =>
      have hslot : slot ∈ f.slots := sub List.mem_cons_self
      exact ih (List.subset_of_cons_subset sub) (fill slot hslot s hs value s' filled) read
    | _ => cases read
  intro t a read
  unfold RecordFormat.reader at read
  split at read
  · exact named _ _ start read
  · exact positional _ _ _ _ (fun _ h => h) start read
  · cases read

theorem of_decode {r : Reader α} {p : α → Prop} (h : Ensures r p) {text : String} {a : α}
    (read : decode r text = .ok a) : p a := by
  obtain ⟨t, -, found⟩ := decode_eq_ok_iff.mp read
  exact h t a found

/-- The second reader gives what the first one gives, in another form. -/
def Recasts (r : Reader α) (r' : Reader β) (form : α → β) : Prop := ∀ t, r' t = (r t).map form

theorem recasts_refl (r : Reader α) : Recasts r r id := by
  intro t
  cases r t <;> rfl

theorem Recasts.checked {γ δ : Type} {r : Reader α} {r' : Reader β} {form : α → β}
    (h : Recasts r r' form) {p : α → Prop} (ensures : Ensures r p) {check : α → Except Cause γ}
    {check' : β → Except Cause δ} {form' : γ → δ}
    (step : ∀ a, p a → check' (form a) = (check a).map form') :
    Recasts (r.checked check) (r'.checked check') form' := by
  intro t
  rw [Reader.checked, Reader.checked, h t]
  cases read : r t with
  | error e => rfl
  | ok a =>
    show ((check' (form a)).mapError _) = ((check a).mapError _).map form'
    rw [step a (ensures t a read)]
    cases check a <;> rfl

theorem Recasts.map [DecidableEq κ] {key : String → Except Cause κ} {text : κ → String}
    {r : Reader α} {r' : Reader β} {form : α → β} (h : Recasts r r' form) :
    Recasts (r.map key text) (r'.map key text) (List.map (Prod.map id form)) := by
  have keys (done : List (κ × α)) :
      (done.map (Prod.map id form)).map Prod.fst = done.map Prod.fst := by
    rw [List.map_map]
    rfl
  have entries (done : List (κ × α)) (ms : Members) :
      r'.entries key text (done.map (Prod.map id form)) ms =
        (r.entries key text done ms).map (List.map (Prod.map id form)) := by
    fun_induction Reader.entries key text r done ms with
    | case1 | case2 | case3 => rfl
    | case4 _ _ _ _ _ _ _ _ unknown =>
      simp only [Reader.entries, unknown]
      rfl
    | case5 _ _ _ value _ _ _ _ named _ failed =>
      simp only [Reader.entries, named, h value, failed]
      rfl
    | case6 done _ _ value _ _ _ k named _ found repeated =>
      simp only [Reader.entries, named, h value, found]
      exact if_pos (keys done ▸ repeated)
    | case7 done _ _ value _ rest _ k named a found fresh ih =>
      simp only [Reader.entries, named, h value, found]
      rw [List.map_append] at ih
      exact (if_neg (keys done ▸ fresh)).trans ih
  intro t
  cases t with
  | object start ms => exact entries [] ms
  | scalar _ _ _ | array _ _ | fault _ => rfl

theorem Recasts.decode {r : Reader α} {r' : Reader β} {form : α → β} (h : Recasts r r' form)
    (text : String) : decode r' text = (decode r text).map form := by
  simp only [Json.decode, h (Tree.ofText text).tree]
  rcases r (Tree.ofText text).tree with e | a
  · rfl
  · rcases (Tree.ofText text).trailing? with _ | token <;> rfl

end SchemaPlan.Json
