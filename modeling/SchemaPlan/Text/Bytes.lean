/-!
# Bytes of a text

Texts are measured and cut in bytes of their UTF-8 form.
-/

namespace SchemaPlan.Text

def byteLength : List Char → Nat
  | [] => 0
  | c :: cs => c.utf8Size + byteLength cs

@[simp] theorem byteLength_nil : byteLength [] = 0 := rfl

@[simp] theorem byteLength_cons (c : Char) (cs : List Char) :
    byteLength (c :: cs) = c.utf8Size + byteLength cs := rfl

@[simp] theorem byteLength_append (cs ds : List Char) :
    byteLength (cs ++ ds) = byteLength cs + byteLength ds := by
  induction cs with
  | nil => simp
  | cons c cs ih => simp [ih, Nat.add_assoc]

theorem byteLength_pos {cs : List Char} (h : cs ≠ []) : 0 < byteLength cs := by
  cases cs with
  | nil => exact absurd rfl h
  | cons c cs => exact Nat.add_pos_left c.utf8Size_pos _

/-- Prefixes of one text that are equally long are equal. -/
theorem eq_of_byteLength_eq {cs ds es fs : List Char} (whole : cs ++ ds = es ++ fs)
    (length : byteLength cs = byteLength es) : cs = es ∧ ds = fs := by
  have none {more : List Char} (h : byteLength more = 0) : more = [] := by
    cases more with
    | nil => rfl
    | cons c more => exact absurd h (Nat.ne_of_gt (byteLength_pos (by simp)))
  rcases List.append_eq_append_iff.mp whole with ⟨more, rfl, rfl⟩ | ⟨more, rfl, rfl⟩
  · rw [byteLength_append] at length
    obtain rfl := none (show byteLength more = 0 by omega)
    simp
  · rw [byteLength_append] at length
    obtain rfl := none (show byteLength more = 0 by omega)
    simp

def dropBytes : Nat → List Char → List Char
  | _, [] => []
  | 0, cs => cs
  | n + 1, c :: cs => dropBytes (n + 1 - c.utf8Size) cs

def takeBytes : Nat → List Char → List Char
  | _, [] => []
  | 0, _ => []
  | n + 1, c :: cs => c :: takeBytes (n + 1 - c.utf8Size) cs

@[simp] theorem dropBytes_zero (cs : List Char) : dropBytes 0 cs = cs := by cases cs <;> rfl

@[simp] theorem takeBytes_zero (cs : List Char) : takeBytes 0 cs = [] := by cases cs <;> rfl

theorem dropBytes_byteLength_append (cs ds : List Char) :
    dropBytes (byteLength cs) (cs ++ ds) = ds := by
  induction cs with
  | nil => simp
  | cons c cs ih =>
    obtain ⟨n, hn⟩ := Nat.exists_eq_succ_of_ne_zero (Nat.ne_of_gt c.utf8Size_pos)
    have step : c.utf8Size + byteLength cs = (n + byteLength cs) + 1 := by omega
    rw [List.cons_append, byteLength_cons, step, dropBytes, ← step, Nat.add_sub_cancel_left, ih]

theorem takeBytes_byteLength_append (cs ds : List Char) :
    takeBytes (byteLength cs) (cs ++ ds) = cs := by
  induction cs with
  | nil => simp
  | cons c cs ih =>
    obtain ⟨n, hn⟩ := Nat.exists_eq_succ_of_ne_zero (Nat.ne_of_gt c.utf8Size_pos)
    have step : c.utf8Size + byteLength cs = (n + byteLength cs) + 1 := by omega
    rw [List.cons_append, byteLength_cons, step, takeBytes, ← step, Nat.add_sub_cancel_left, ih]

theorem takeBytes_append {n : Nat} {cs : List Char} (h : n ≤ byteLength cs) (ds : List Char) :
    takeBytes n (cs ++ ds) = takeBytes n cs := by
  induction cs generalizing n with
  | nil =>
    obtain rfl := Nat.le_zero.mp h
    simp
  | cons c cs ih =>
    cases n with
    | zero => simp
    | succ n =>
      rw [byteLength_cons] at h
      exact congrArg (c :: ·) (ih (by omega))

end SchemaPlan.Text
