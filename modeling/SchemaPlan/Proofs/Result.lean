import Mathlib.Data.List.Forall2

/-!
# Results of steps

A chain of steps that may fail gives a result exactly if each of its steps does. What is told of a
list is told element by element.
-/

namespace SchemaPlan

variable {α β γ ε δ : Type}

theorem ok_bind (a : α) (f : α → Except ε β) : (.ok a : Except ε α) >>= f = f a := rfl

theorem bind_eq_ok_iff {x : Except ε α} {f : α → Except ε β} {b : β} :
    x >>= f = .ok b ↔ ∃ a, x = .ok a ∧ f a = .ok b := by
  cases x with
  | error e => simp [bind, Except.bind]
  | ok a => simp [bind, Except.bind]

theorem bind_eq_error_iff {x : Except ε α} {f : α → Except ε β} {e : ε} :
    x >>= f = .error e ↔ x = .error e ∨ ∃ a, x = .ok a ∧ f a = .error e := by
  cases x with
  | error e' => simp [bind, Except.bind]
  | ok a => simp [bind, Except.bind]

theorem map_eq_ok_iff {x : Except ε α} {f : α → β} {b : β} :
    x.map f = .ok b ↔ ∃ a, x = .ok a ∧ f a = b := by
  cases x with
  | error e => simp [Except.map]
  | ok a => simp [Except.map]

theorem mapError_eq_ok_iff {x : Except ε α} {f : ε → δ} {a : α} :
    x.mapError f = .ok a ↔ x = .ok a := by
  cases x with
  | error e => simp [Except.mapError]
  | ok a => simp [Except.mapError]

theorem mapError_map (x : Except ε α) (f : α → β) (g : ε → δ) :
    (x.map f).mapError g = (x.mapError g).map f := by
  cases x <;> rfl

theorem forall₂_congr_of_mem {R S : α → β → Prop} {as : List α} {bs : List β}
    (h : ∀ a ∈ as, ∀ b, R a b ↔ S a b) : List.Forall₂ R as bs ↔ List.Forall₂ S as bs := by
  induction as generalizing bs with
  | nil => simp
  | cons a as ih =>
    obtain ⟨head, tail⟩ := List.forall_mem_cons.mp h
    cases bs with
    | nil => simp
    | cons b bs => rw [List.forall₂_cons, List.forall₂_cons, head b, ih tail]

theorem map_eq_map_of_forall₂ {R : α → β → Prop} {f : α → γ} {g : β → γ} {as : List α}
    {bs : List β} (h : List.Forall₂ R as bs) (same : ∀ a b, R a b → f a = g b) :
    as.map f = bs.map g := by
  induction h with
  | nil => rfl
  | cons head _ ih => rw [List.map_cons, List.map_cons, same _ _ head, ih]

theorem forall₂_of_map_eq {R : α → β → Prop} {f : α → γ} {g : β → γ} {as : List α} {bs : List β}
    (same : as.map f = bs.map g) (step : ∀ a ∈ as, ∀ b ∈ bs, f a = g b → R a b) :
    List.Forall₂ R as bs := by
  induction bs generalizing as with
  | nil =>
    obtain rfl := List.map_eq_nil_iff.mp same
    exact .nil
  | cons b bs ih =>
    obtain ⟨a, as, rfl, head, tail⟩ := List.map_eq_cons_iff.mp same
    refine .cons (step a List.mem_cons_self b List.mem_cons_self head) (ih tail ?_)
    exact fun a ha b hb => step a (List.mem_cons_of_mem _ ha) b (List.mem_cons_of_mem _ hb)

theorem forall_mem_of_forall₂ {R : α → β → Prop} {p : α → Prop} {q : β → Prop} {as : List α}
    {bs : List β} (h : List.Forall₂ R as bs) (step : ∀ a b, R a b → p a → q b)
    (all : ∀ a ∈ as, p a) : ∀ b ∈ bs, q b := by
  induction h with
  | nil => simp
  | cons head _ ih =>
    obtain ⟨first, rest⟩ := List.forall_mem_cons.mp all
    exact List.forall_mem_cons.mpr ⟨step _ _ head first, ih rest⟩

theorem exists_mem_of_forall₂ {R : α → β → Prop} {as : List α} {bs : List β}
    (h : List.Forall₂ R as bs) {a : α} (ha : a ∈ as) : ∃ b ∈ bs, R a b := by
  induction h with
  | nil => cases ha
  | cons head _ ih =>
    rcases List.mem_cons.mp ha with rfl | ha
    · exact ⟨_, List.mem_cons_self, head⟩
    · obtain ⟨b, hb, related⟩ := ih ha
      exact ⟨b, List.mem_cons_of_mem _ hb, related⟩

theorem find?_of_forall₂ {R : α → β → Prop} {p : α → Bool} {q : β → Bool} {as : List α} {bs : List β}
    (h : List.Forall₂ R as bs) (same : ∀ a b, R a b → p a = q b) :
    Option.Rel R (as.find? p) (bs.find? q) := by
  induction h with
  | nil => exact .none
  | @cons a b as bs head _ ih =>
    rw [List.find?_cons, List.find?_cons, same a b head]
    cases q b
    · exact ih
    · exact .some head

theorem forall₂_trans {R : α → α → Prop} (trans : ∀ a b c, R a b → R b c → R a c) {as bs cs : List α}
    (h : List.Forall₂ R as bs) (h' : List.Forall₂ R bs cs) : List.Forall₂ R as cs := by
  induction h generalizing cs with
  | nil => exact h'
  | cons head _ ih =>
    obtain ⟨c, cs, head', tail', rfl⟩ := List.forall₂_cons_left_iff.mp h'
    exact .cons (trans _ _ _ head head') (ih tail')

/-- Entries that are related to pairs, told by the first components alone. -/
theorem forall₂_exists_iff {R : α → β × γ → Prop} {as : List α} {bs : List β} :
    List.Forall₂ (fun a b => ∃ c, R a (b, c)) as bs ↔
      ∃ rs, List.Forall₂ R as rs ∧ rs.map Prod.fst = bs := by
  constructor
  · intro h
    induction h with
    | nil => exact ⟨[], .nil, rfl⟩
    | cons head _ ih =>
      obtain ⟨c, head⟩ := head
      obtain ⟨rs, tail, rfl⟩ := ih
      exact ⟨(_, c) :: rs, .cons head tail, rfl⟩
  · rintro ⟨rs, h, rfl⟩
    exact List.forall₂_map_right_iff.mpr (h.imp fun a r related => ⟨r.2, related⟩)

theorem forall₂_getLast {R : α → β → Prop} {as : List α} {bs : List β} (h : List.Forall₂ R as bs)
    (solid : as ≠ []) (solid' : bs ≠ []) : R (as.getLast solid) (bs.getLast solid') := by
  induction h with
  | nil => exact absurd rfl solid
  | @cons a b as bs head tail ih =>
    cases tail with
    | nil => exact head
    | cons next tail =>
      rw [List.getLast_cons_cons, List.getLast_cons_cons]
      exact ih (by simp) (by simp)

theorem forall₂_takeWhile {R : α → β → Prop} {p : α → Bool} {q : β → Bool}
    (same : ∀ a b, R a b → p a = q b) {as : List α} {bs : List β}
    (h : List.Forall₂ R as bs) : List.Forall₂ R (as.takeWhile p) (bs.takeWhile q) := by
  induction h with
  | nil => exact .nil
  | @cons a b as bs head tail ih =>
    rw [List.takeWhile_cons, List.takeWhile_cons, same a b head]
    split
    · exact .cons head ih
    · exact .nil

theorem forall₂_dropWhile {R : α → β → Prop} {p : α → Bool} {q : β → Bool}
    (same : ∀ a b, R a b → p a = q b) {as : List α} {bs : List β}
    (h : List.Forall₂ R as bs) : List.Forall₂ R (as.dropWhile p) (bs.dropWhile q) := by
  induction h with
  | nil => exact .nil
  | @cons a b as bs head tail ih =>
    rw [List.dropWhile_cons, List.dropWhile_cons, same a b head]
    split
    · exact ih
    · exact .cons head tail

theorem forall₂_and_mem {R : α → β → Prop} {as : List α} {bs : List β} (h : List.Forall₂ R as bs) :
    List.Forall₂ (fun a b => R a b ∧ a ∈ as ∧ b ∈ bs) as bs := by
  induction h with
  | nil => exact .nil
  | @cons a b as bs head _ ih =>
    refine .cons ⟨head, List.mem_cons_self, List.mem_cons_self⟩ (ih.imp fun c d related => ?_)
    obtain ⟨related, hc, hd⟩ := related
    exact ⟨related, List.mem_cons_of_mem a hc, List.mem_cons_of_mem b hd⟩

theorem eq_none_of_rel {R : α → β → Prop} {o : Option β} (h : Option.Rel R none o) : o = none := by
  cases h
  rfl

theorem exists_of_rel {R : α → β → Prop} {a : α} {o : Option β} (h : Option.Rel R (some a) o) :
    ∃ b, o = some b ∧ R a b := by
  cases h with
  | some related => exact ⟨_, rfl, related⟩

/-- What the elements of a list say, in their order. An element that says nothing is passed over. -/
inductive Told (R : α → β → Prop) : List α → List β → Prop
  | nil : Told R [] []
  | cons {a b as bs} : R a b → Told R as bs → Told R (a :: as) (b :: bs)
  | skip {a as bs} : (∀ b, ¬ R a b) → Told R as bs → Told R (a :: as) bs

/-- Where a function gives what each element says, nothing else is told. -/
theorem told_iff {R : α → β → Prop} {f : α → Option β} {as : List α} {bs : List β}
    (given : ∀ a ∈ as, ∀ b, R a b ↔ f a = some b) :
    Told R as bs ↔ as.filterMap f = bs := by
  induction as generalizing bs with
  | nil =>
    constructor
    · rintro ⟨⟩
      rfl
    · rintro rfl
      exact .nil
  | cons a as ih =>
    obtain ⟨head, tail⟩ := List.forall_mem_cons.mp given
    rw [List.filterMap_cons]
    constructor
    · intro h
      cases h with
      | cons said rest => rw [(head _).mp said, (ih tail).mp rest]
      | skip silent rest =>
        have none : f a = none :=
          Option.eq_none_iff_forall_ne_some.mpr fun b found => silent b ((head b).mpr found)
        rw [none]
        exact (ih tail).mp rest
    · rintro rfl
      have rest := (ih tail).mpr rfl
      cases found : f a with
      | none => exact .skip (fun b said => by simp [(head b).mp said] at found) rest
      | some b => exact .cons ((head b).mpr found) rest

theorem Told.exists_mem {R : α → β → Prop} {as : List α} {bs : List β} (h : Told R as bs)
    {b : β} (hb : b ∈ bs) : ∃ a ∈ as, R a b := by
  induction h with
  | nil => cases hb
  | @cons a c as bs said _ ih =>
    rcases List.mem_cons.mp hb with rfl | hb
    · exact ⟨a, List.mem_cons_self, said⟩
    · obtain ⟨d, hd, said⟩ := ih hb
      exact ⟨d, List.mem_cons_of_mem a hd, said⟩
  | @skip a as bs _ _ ih =>
    obtain ⟨d, hd, said⟩ := ih hb
    exact ⟨d, List.mem_cons_of_mem a hd, said⟩

end SchemaPlan
