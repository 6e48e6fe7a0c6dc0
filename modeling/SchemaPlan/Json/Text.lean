import SchemaPlan.Json.Error
import SchemaPlan.Text.Bytes
import SchemaPlan.Text.Digit

/-!
# Strings in JSON text

A string is scanned twice. Reading decodes it, and wants surrogates in pairs; skipping only looks
for its end.
-/

namespace SchemaPlan.Json

/-- A place in a text: the characters left, and the mark reached. -/
structure Input where
  rest : List Char
  mark : Mark

namespace Input

def next (s : Input) (c : Char) (rest : List Char) : Input := ⟨rest, s.mark.after c⟩

/-- The mark at the end of the text. -/
def endMark (s : Input) : Mark := s.mark.afterAll s.rest

def fail {α : Type} (s : Input) (cause : Cause) : Except Error α := .error (.marked cause s.mark)

/-- Fails past the first byte of the next character. -/
def failAt {α : Type} (s : Input) (c : Char) (cause : Cause) : Except Error α :=
  .error (.marked cause (s.mark.peek c))

end Input

/-- Four hexadecimal digits at the start of a text. -/
def hexQuad? : List Char → Option (Nat × List Char)
  | a :: b :: c :: d :: rest => do
    let a ← Text.digit? 16 a
    let b ← Text.digit? 16 b
    let c ← Text.digit? 16 c
    let d ← Text.digit? 16 d
    return (((a * 16 + b) * 16 + c) * 16 + d, rest)
  | _ => none

/-- Four bytes are taken before they are looked at. -/
def Input.quadError (s : Input) : Error :=
  if 4 ≤ Text.byteLength s.rest then .marked .invalidEscape (s.mark.afterBytes 4 s.rest)
  else .marked .endInString s.endMark

def hexQuad (s : Input) : Except Error (Nat × Input) :=
  match hexQuad? s.rest with
  | some (n, rest) => .ok (n, ⟨rest, s.mark.afterBytes 4 s.rest⟩)
  | none => .error s.quadError

theorem length_of_hexQuad? {cs rest : List Char} {n : Nat} (h : hexQuad? cs = some (n, rest)) :
    rest.length < cs.length := by
  unfold hexQuad? at h
  split at h
  · simp only [Option.bind_eq_bind, Option.bind_eq_some_iff, Option.pure_def, Option.some.injEq,
      Prod.mk.injEq] at h
    obtain ⟨_, _, _, _, _, _, _, _, _, rfl⟩ := h
    simp only [List.length_cons]
    omega
  · cases h

theorem length_of_hexQuad {s t : Input} {n : Nat} (h : hexQuad s = .ok (n, t)) :
    t.rest.length < s.rest.length := by
  unfold hexQuad at h
  split at h
  · next hs =>
    cases h
    exact length_of_hexQuad? hs
  · cases h

/-- The character of a one-letter escape. -/
def shortEscape? : Char → Option Char
  | '"' => some '"'
  | '\\' => some '\\'
  | '/' => some '/'
  | 'b' => some '\x08'
  | 'f' => some '\x0c'
  | 'n' => some '\n'
  | 'r' => some '\r'
  | 't' => some '\t'
  | _ => none

/-- The second half of a surrogate pair, which follows at once. -/
def lowSurrogate (high : Nat) (s : Input) : Except Error (Char × Input) :=
  match s.rest with
  | [] => s.fail .endInString
  | c :: cs =>
    if c ≠ '\\' then s.failAt c .unfinishedEscape
    else
      let s := s.next c cs
      match s.rest with
      | [] => s.fail .endInString
      | d :: ds =>
        if d ≠ 'u' then s.failAt d .unfinishedEscape
        else
          match hexQuad (s.next d ds) with
          | .error e => .error e
          | .ok (low, s) =>
            if low < 0xDC00 ∨ 0xDFFF < low then s.fail .loneSurrogate
            else .ok (Char.ofNat ((high - 0xD800) * 0x400 + (low - 0xDC00) + 0x10000), s)

theorem length_of_lowSurrogate {high : Nat} {s t : Input} {c : Char}
    (h : lowSurrogate high s = .ok (c, t)) : t.rest.length < s.rest.length := by
  unfold lowSurrogate at h
  split at h
  · cases h
  · next d ds hs =>
    split at h
    · cases h
    · simp only [Input.next] at h
      split at h
      · cases h
      · next e es _ =>
        split at h
        · cases h
        · split at h
          · cases h
          · next low u hu =>
            split at h
            · cases h
            · simp only [Except.ok.injEq, Prod.mk.injEq] at h
              obtain ⟨-, rfl⟩ := h
              have := length_of_hexQuad hu
              simp only [hs, List.length_cons] at *
              omega

/-- What follows a backslash. -/
def readEscape (s : Input) : Except Error (Char × Input) :=
  match s.rest with
  | [] => s.fail .endInString
  | c :: cs =>
    match shortEscape? c with
    | some d => .ok (d, s.next c cs)
    | none =>
      if c ≠ 'u' then s.failAt c .invalidEscape
      else
        match hexQuad (s.next c cs) with
        | .error e => .error e
        | .ok (n, s) =>
          if 0xDC00 ≤ n ∧ n ≤ 0xDFFF then s.fail .loneSurrogate
          else if 0xD800 ≤ n ∧ n ≤ 0xDBFF then lowSurrogate n s
          else .ok (Char.ofNat n, s)

theorem length_of_readEscape {s t : Input} {c : Char} (h : readEscape s = .ok (c, t)) :
    t.rest.length < s.rest.length := by
  unfold readEscape at h
  split at h
  · cases h
  · next d ds hs =>
    split at h
    · cases h
      simp [hs, Input.next]
    · split at h
      · cases h
      · split at h
        · cases h
        · next n u hu =>
          have := length_of_hexQuad hu
          simp only [Input.next] at this
          split at h
          · cases h
          · split at h
            · have := length_of_lowSurrogate h
              simp only [hs, List.length_cons]
              omega
            · simp only [Except.ok.injEq, Prod.mk.injEq] at h
              obtain ⟨-, rfl⟩ := h
              simp only [hs, List.length_cons]
              omega

def skipEscape (s : Input) : Except Error Input :=
  match s.rest with
  | [] => s.fail .endInString
  | c :: cs =>
    if (shortEscape? c).isSome then .ok (s.next c cs)
    else if c ≠ 'u' then s.failAt c .invalidEscape
    else (hexQuad (s.next c cs)).map Prod.snd

theorem length_of_skipEscape {s t : Input} (h : skipEscape s = .ok t) :
    t.rest.length < s.rest.length := by
  unfold skipEscape at h
  split at h
  · cases h
  · next c cs hs =>
    split at h
    · cases h
      simp [hs, Input.next]
    · split at h
      · cases h
      · cases hq : hexQuad (s.next c cs) with
        | error e => rw [hq] at h; cases h
        | ok r =>
          rw [hq] at h
          cases h
          have := length_of_hexQuad hq
          simp only [Input.next] at this
          simp only [hs, List.length_cons]
          omega

/-- The characters of a string up to its closing quote, and the place after the quote. -/
def readString (s : Input) : Except Error (List Char × Input) :=
  match _rest : s.rest with
  | [] => s.fail .endInString
  | c :: cs =>
    if c = '"' then .ok ([], s.next c cs)
    else if c = '\\' then
      match _escape : readEscape (s.next c cs) with
      | .error e => .error e
      | .ok (d, t) => (readString t).map fun (ds, u) => (d :: ds, u)
    else if c.toNat < 0x20 then .error (.marked .controlCharacter (s.mark.after c))
    else (readString (s.next c cs)).map fun (ds, u) => (c :: ds, u)
termination_by s.rest.length
decreasing_by
  · have := length_of_readEscape _escape
    simp only [Input.next] at this
    simp only [_rest, List.length_cons]
    omega
  · simp [_rest, Input.next]

/-- The place after the closing quote of a string. -/
def skipString (s : Input) : Except Error Input :=
  match _rest : s.rest with
  | [] => s.fail .endInString
  | c :: cs =>
    if c = '"' then .ok (s.next c cs)
    else if c = '\\' then
      match _escape : skipEscape (s.next c cs) with
      | .error e => .error e
      | .ok t => skipString t
    else if c.toNat < 0x20 then s.fail .controlCharacter
    else skipString (s.next c cs)
termination_by s.rest.length
decreasing_by
  · have := length_of_skipEscape _escape
    simp only [Input.next] at this
    simp only [_rest, List.length_cons]
    omega
  · simp [_rest, Input.next]

theorem length_of_skipString {s t : Input} (h : skipString s = .ok t) :
    t.rest.length < s.rest.length := by
  fun_induction skipString s with
  | case1 => cases h
  | case2 s cs hs =>
    cases h
    simp [hs, Input.next]
  | case3 => cases h
  | case4 s cs u hs _ hu ih =>
    have := ih h
    have := length_of_skipEscape hu
    simp only [Input.next] at *
    simp only [hs, List.length_cons]
    omega
  | case5 => cases h
  | case6 s c cs hs _ _ _ ih =>
    have := ih h
    simp only [Input.next] at *
    simp only [hs, List.length_cons]
    omega

end SchemaPlan.Json
