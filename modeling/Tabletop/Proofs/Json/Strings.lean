import Tabletop.Json.Text

-- A quoted string reads back.
namespace Tabletop.Json

open Tabletop.Text

theorem hexValue?_hexDigit (n : Nat) : hexValue? (hexDigit n) = some (n % 16) := by
  have hall : ∀ d < 16, hexValue? (Nat.digitChar d) = some d := by decide
  exact hall _ (Nat.mod_lt _ (by decide))

-- A control character is escaped with two hexadecimal digits.
theorem escapedUnit?_control {c : Char} (hc : c.toNat < 32) (rest : List Char) :
    escapedUnit? ('0' :: '0' :: hexDigit (c.toNat / 16) :: hexDigit c.toNat :: rest) =
      some (c, rest) := by
  have hzero : hexValue? '0' = some 0 := by decide
  have hvalue : c.toNat / 16 % 16 * 16 + c.toNat % 16 = c.toNat := by omega
  have hhex : hex4? ('0' :: '0' :: hexDigit (c.toNat / 16) :: hexDigit c.toNat :: rest) =
      some (c.toNat, rest) := by
    simpa [hex4?, hzero, hexValue?_hexDigit] using hvalue
  have hlow : ¬ (0xD800 ≤ c.toNat) := by omega
  have hhigh : ¬ (0xDC00 ≤ c.toNat) := by omega
  simp [escapedUnit?, hhex, hlow, hhigh]

-- An escaped character takes one step, whatever its escape.
theorem stringBody?_escape (c : Char) (n : Nat) (read rest : List Char) :
    stringBody? (n + 1) read (escape c ++ rest) = stringBody? n (c :: read) rest := by
  by_cases hquote : c = '"'
  · subst hquote; simp [escape, stringBody?]
  by_cases hbackslash : c = '\\'
  · subst hbackslash; simp [escape, stringBody?]
  by_cases hnewline : c = '\n'
  · subst hnewline; simp [escape, stringBody?]
  by_cases hreturn : c = '\r'
  · subst hreturn; simp [escape, stringBody?]
  by_cases htab : c = '\t'
  · subst htab; simp [escape, stringBody?]
  by_cases hback : c.toNat = 8
  · obtain rfl : c = '\x08' := Char.ext (UInt32.toNat_inj.1 hback)
    simp [escape, stringBody?]
  by_cases hfeed : c.toNat = 12
  · obtain rfl : c = '\x0c' := Char.ext (UInt32.toNat_inj.1 hfeed)
    simp [escape, stringBody?]
  by_cases hcontrol : c.toNat < 32
  · simp [escape, hquote, hbackslash, hnewline, hreturn, htab, hback, hfeed, hcontrol, stringBody?,
      escapedUnit?_control hcontrol]
  · simp [escape, hquote, hbackslash, hnewline, hreturn, htab, hback, hfeed, hcontrol, stringBody?]

theorem stringBody?_quoted (s : List Char) {n : Nat} (hn : s.length < n) (read rest : List Char) :
    stringBody? n read (s.flatMap escape ++ '"' :: rest) =
      some (String.ofList (read.reverse ++ s), rest) := by
  induction s generalizing n read with
  | nil =>
    obtain ⟨n, rfl⟩ : ∃ m, n = m + 1 := ⟨n - 1, by simp at hn; omega⟩
    simp [stringBody?]
  | cons c s ih =>
    obtain ⟨n, rfl⟩ : ∃ m, n = m + 1 := ⟨n - 1, by simp at hn; omega⟩
    have hn : s.length < n := by simpa using hn
    rw [List.flatMap_cons, List.append_assoc, stringBody?_escape, ih hn]
    simp

theorem toList_quote (s : String) :
    (quote s).toList = '"' :: (s.toList.flatMap escape ++ ['"']) := by
  simp [quote]

theorem length_le_flatMap_escape (s : List Char) : s.length ≤ (s.flatMap escape).length := by
  have hpos : ∀ c, 1 ≤ (escape c).length := by
    intro c
    unfold escape
    repeat' split
    all_goals simp
  induction s with
  | nil => simp
  | cons c s ih =>
    have hc := hpos c
    simp only [List.flatMap_cons, List.length_cons, List.length_append]
    omega

-- What follows an opening quote is read up to the closing one.
theorem stringBody?_quote (s : String) (rest : List Char) :
    let text := s.toList.flatMap escape ++ '"' :: rest
    stringBody? text.length [] text = some (s, rest) := by
  have hlength := length_le_flatMap_escape s.toList
  have hcount : s.toList.length < (s.toList.flatMap escape ++ '"' :: rest).length := by
    rw [List.length_append, List.length_cons]
    omega
  dsimp only
  rw [stringBody?_quoted _ hcount]
  simp

end Tabletop.Json
