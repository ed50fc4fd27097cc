import Mathlib.Data.List.Basic
import Treewalk.Text.Quoted

/-! Quoted text determines the text, whatever stands behind it.

This does not hang on which characters are escaped, so it is shown for all ways of quoting that are told apart by their
`Escaping`: a character that is no escape ends a text only if it is the quote, and escapes are told apart by their own
characters alone. -/
namespace Treewalk.Text

/-- How the characters of a text are written between quotes. -/
structure Escaping where
  write : Char → List Char
  /-- A character stands for itself, which quotes and backslashes may not, or is escaped by a backslash. -/
  plain_or_escaped (c : Char) : (write c = [c] ∧ c ≠ '"' ∧ c ≠ '\\') ∨ ∃ rest, write c = '\\' :: rest
  /-- An escape is not that of another character, nor the beginning of it. -/
  eq_of_escape {c d : Char} {rest : List Char} : write c = '\\' :: rest → write c <+: write d → c = d

namespace Escaping

variable {E : Escaping} {c d : Char} {x y : List Char}

def quoted (E : Escaping) (s : String) : String := String.ofList ('"' :: s.toList.flatMap E.write ++ ['"'])

theorem eq_of_write_begins (h : E.write c <+: E.write d) : c = d := by
  rcases E.plain_or_escaped c with ⟨hc, -, hslash⟩ | ⟨rest, hc⟩
  · rcases E.plain_or_escaped d with ⟨hd, -, -⟩ | ⟨rest, hd⟩
    · rw [hc, hd] at h
      simpa using h
    · rw [hc, hd] at h
      exact absurd (by simpa using h) hslash
  · exact E.eq_of_escape hc h

/-- Of two texts that begin with a written character, these characters are the same if the texts are. -/
theorem write_append_inj (h : E.write c ++ x = E.write d ++ y) : c = d ∧ x = y := by
  have hc : E.write c <+: E.write d ++ y := ⟨x, h⟩
  have hd : E.write d <+: E.write d ++ y := ⟨y, rfl⟩
  have hcd : c = d := by
    rcases List.prefix_or_prefix_of_prefix hc hd with hprefix | hprefix
    · exact eq_of_write_begins hprefix
    · exact (eq_of_write_begins hprefix).symm
  subst hcd
  exact ⟨rfl, List.append_cancel_left h⟩

theorem write_append_ne_quote : E.write c ++ x ≠ '"' :: y := by
  intro h
  rcases E.plain_or_escaped c with ⟨hc, hquote, -⟩ | ⟨rest, hc⟩
  · rw [hc] at h
    exact hquote (List.cons.inj h).1
  · rw [hc] at h
    exact absurd (List.cons.inj h).1 (by decide)

/-- The first quote that is not part of an escape ends the text. -/
theorem characters_append_inj {s u : List Char}
    (h : s.flatMap E.write ++ '"' :: x = u.flatMap E.write ++ '"' :: y) : s = u ∧ x = y := by
  induction s generalizing u with
  | nil =>
    cases u with
    | nil => exact ⟨rfl, (List.cons.inj h).2⟩
    | cons d u =>
      rw [List.flatMap_cons, List.append_assoc] at h
      exact absurd h.symm write_append_ne_quote
  | cons c s ih =>
    cases u with
    | nil =>
      rw [List.flatMap_cons, List.append_assoc] at h
      exact absurd h write_append_ne_quote
    | cons d u =>
      simp only [List.flatMap_cons, List.append_assoc] at h
      obtain ⟨rfl, hrest⟩ := write_append_inj h
      obtain ⟨rfl, hxy⟩ := ih hrest
      exact ⟨rfl, hxy⟩

theorem quoted_append_inj {s u : String} (h : (E.quoted s).toList ++ x = (E.quoted u).toList ++ y) :
    s = u ∧ x = y := by
  simp only [quoted, String.toList_ofList, List.cons_append, List.append_assoc, List.cons.injEq,
    true_and] at h
  obtain ⟨hs, hxy⟩ := characters_append_inj h
  exact ⟨String.toList_inj.1 hs, hxy⟩

end Escaping

/-! ### The escapes in use -/

theorem digitChar_inj : ∀ m, m < 16 → ∀ n, n < 16 → Nat.digitChar m = Nat.digitChar n → m = n := by decide

theorem digitChar_ne_brace : ∀ n, n < 16 → Nat.digitChar n ≠ '\x7d' := by decide

/-- The last digit, and in front of it the digits of the quotient. -/
theorem hexadecimal_eq (n : Nat) :
    hexadecimal n = (if n < 16 then [] else hexadecimal (n / 16)) ++ [Nat.digitChar (n % 16)] := by
  rw [hexadecimal, Nat.toDigits_eq_if (by omega)]
  split
  · rename_i hlt
    rw [Nat.mod_eq_of_lt hlt, List.nil_append]
  · rfl

theorem ne_brace_of_mem_hexadecimal {n : Nat} {c : Char} (h : c ∈ hexadecimal n) : c ≠ '\x7d' := by
  induction n using Nat.strongRecOn with
  | _ n ih =>
    rw [hexadecimal_eq, List.mem_append, List.mem_singleton] at h
    rcases h with h | rfl
    · split at h
      · cases h
      · exact ih (n / 16) (by omega) h
    · exact digitChar_ne_brace (n % 16) (by omega)

theorem hexadecimal_inj {m n : Nat} (h : hexadecimal m = hexadecimal n) : m = n := by
  induction m using Nat.strongRecOn generalizing n with
  | _ m ih =>
    rw [hexadecimal_eq m, hexadecimal_eq n] at h
    obtain ⟨hfront, hlast⟩ := List.append_inj' h rfl
    have hremainder : m % 16 = n % 16 :=
      digitChar_inj (m % 16) (by omega) (n % 16) (by omega) (List.cons.inj hlast).1
    have hquotient : m / 16 = n / 16 := by
      split at hfront
      · split at hfront
        · omega
        · exact absurd hfront.symm Nat.toDigits_ne_nil
      · split at hfront
        · exact absurd hfront Nat.toDigits_ne_nil
        · exact ih (m / 16) (by omega) hfront
    omega

theorem hexadecimal_prefix_inj {m n : Nat} (h : hexadecimal m ++ ['\x7d'] <+: hexadecimal n ++ ['\x7d']) : m = n := by
  obtain ⟨rest, hrest⟩ := h
  rw [List.append_assoc] at hrest
  rcases List.append_eq_append_iff.1 hrest with ⟨between, hdigits, hbehind⟩ | ⟨between, hdigits, hbehind⟩
  · cases between with
    | nil => exact hexadecimal_inj (by simpa using hdigits.symm)
    | cons c between =>
      have hmem : c ∈ hexadecimal n := by simp [hdigits]
      exact absurd (List.cons.inj hbehind).1.symm (ne_brace_of_mem_hexadecimal hmem)
  · cases between with
    | nil => exact hexadecimal_inj (by simpa using hdigits)
    | cons c between =>
      have hmem : c ∈ hexadecimal m := by simp [hdigits]
      exact absurd (List.cons.inj hbehind).1.symm (ne_brace_of_mem_hexadecimal hmem)

/-- The characters with a letter of their own, which follows the backslash. -/
def letters : List (Char × Char) := [('"', '"'), ('\\', '\\'), ('\n', 'n'), ('\r', 'r'), ('\t', 't'), ('\x00', '0')]

theorem letters_inj : ∀ p ∈ letters, ∀ q ∈ letters, p.2 = q.2 → p.1 = q.1 := by decide

theorem letters_ne_code : ∀ p ∈ letters, p.2 ≠ 'u' := by decide

/-- The ways to write a character: as it is, by its letter, or by its code. -/
inductive Written (c : Char) : List Char → Prop
  | plain (notQuote : c ≠ '"') (notSlash : c ≠ '\\') : Written c [c]
  | letter {letter : Char} (pair : (c, letter) ∈ letters) : Written c ['\\', letter]
  | code : Written c ('\\' :: 'u' :: '\x7b' :: (hexadecimal c.toNat ++ ['\x7d']))

theorem written_escapeQuoted (c : Char) : Written c (escapeQuoted c) := by
  unfold escapeQuoted
  split
  · rename_i h
    exact .letter (by simp [letters, h])
  rename_i hquote
  split
  · rename_i h
    exact .letter (by simp [letters, h])
  rename_i hslash
  split
  · rename_i h
    exact .letter (by simp [letters, h])
  split
  · rename_i h
    exact .letter (by simp [letters, h])
  split
  · rename_i h
    exact .letter (by simp [letters, h])
  split
  · rename_i h
    obtain rfl : c = '\x00' := Char.toNat_inj.1 h
    exact .letter (by simp [letters])
  split
  · exact .code
  · exact .plain hquote hslash

variable {c d : Char} {s u : List Char}

theorem Written.plain_or_escaped (h : Written c s) : (s = [c] ∧ c ≠ '"' ∧ c ≠ '\\') ∨ ∃ rest, s = '\\' :: rest := by
  cases h with
  | plain notQuote notSlash => exact .inl ⟨rfl, notQuote, notSlash⟩
  | letter pair => exact .inr ⟨_, rfl⟩
  | code => exact .inr ⟨_, rfl⟩

theorem Written.eq_of_escape {rest : List Char} (hc : Written c s) (hd : Written d u) (hs : s = '\\' :: rest)
    (h : s <+: u) : c = d := by
  cases hc with
  | plain notQuote notSlash => exact absurd (List.cons.inj hs).1 notSlash
  | letter pair =>
    cases hd with
    | plain _ notSlash =>
      have hfirst := (List.cons_prefix_cons.1 h).1
      exact absurd hfirst.symm notSlash
    | letter pair' =>
      have hletter := (List.cons_prefix_cons.1 (List.cons_prefix_cons.1 h).2).1
      exact letters_inj _ pair _ pair' hletter
    | code =>
      have hletter := (List.cons_prefix_cons.1 (List.cons_prefix_cons.1 h).2).1
      exact absurd hletter (letters_ne_code _ pair)
  | code =>
    cases hd with
    | plain _ notSlash =>
      have hfirst := (List.cons_prefix_cons.1 h).1
      exact absurd hfirst.symm notSlash
    | letter pair =>
      have hletter := (List.cons_prefix_cons.1 (List.cons_prefix_cons.1 h).2).1
      exact absurd hletter.symm (letters_ne_code _ pair)
    | code =>
      have hcode := (List.cons_prefix_cons.1 (List.cons_prefix_cons.1 (List.cons_prefix_cons.1 h).2).2).2
      exact Char.toNat_inj.1 (hexadecimal_prefix_inj hcode)

def standard : Escaping where
  write := escapeQuoted
  plain_or_escaped c := (written_escapeQuoted c).plain_or_escaped
  eq_of_escape := (written_escapeQuoted _).eq_of_escape (written_escapeQuoted _)

theorem quoted_standard : standard.quoted = quoted := rfl

end Treewalk.Text
